import Mathlib.Tactic.Common

/-! A wake-up cell that one task waits on: a notification to one is kept as a permit when nobody waits, one to all is
not. A future counts the notifications to all from its creation, and takes its place among the waiters when it is
first polled. -/

namespace Notify

inductive Wake
  | one
  | all
deriving DecidableEq

inductive Future
  /-- `all`: all waiters were notified since it was created. -/
  | created (all : Bool)
  | registered (wake : Option Wake)
deriving DecidableEq

structure Cell where
  permit : Bool
  future : Option Future
deriving DecidableEq

namespace Cell

def notifyOne (c : Cell) : Cell :=
  match c.future with
  | some (.registered none) => { c with future := some (.registered (some .one)) }
  | _ => { c with permit := true }

def notifyWaiters (c : Cell) : Cell :=
  match c.future with
  | some (.created _) => { c with future := some (.created true) }
  | some (.registered none) => { c with future := some (.registered (some .all)) }
  | _ => c

def listen (c : Cell) : Cell := { c with future := some (.created false) }

/-- Whether the future is ready; if not, it is registered. -/
def poll (c : Cell) : Bool × Cell :=
  match c.future with
  | some (.created all) =>
    if c.permit then (true, ⟨false, none⟩)
    else if all then (true, { c with future := none })
    else (false, { c with future := some (.registered none) })
  | some (.registered (some _)) => (true, { c with future := none })
  | _ => (false, c)

/-- A notification to one that the future has got and not told of goes back. -/
def drop (c : Cell) : Cell :=
  match c.future with
  | some (.registered (some .one)) => ⟨true, none⟩
  | _ => { c with future := none }

/-- The future will be ready when it is polled. -/
def signalled (c : Cell) : Bool :=
  match c.future with
  | some (.created all) => c.permit || all
  | some (.registered wake) => wake.isSome
  | none => false

variable {c : Cell}

theorem poll_fst (c : Cell) : c.poll.1 = c.signalled := by
  obtain ⟨permit, _ | all | _ | wake⟩ := c
  · rfl
  · cases permit <;> cases all <;> rfl
  · rfl
  · rfl

theorem poll_not_ready (h : c.poll.1 = false) (hf : c.future.isSome) : c.poll.2.future = some (.registered none) := by
  obtain ⟨permit, _ | all | _ | wake⟩ := c
  · cases hf
  · cases permit <;> cases all <;> first | rfl | cases h
  · rfl
  · cases h

@[simp] theorem listen_signalled (c : Cell) : c.listen.signalled = c.permit := by simp [listen, signalled]

/-- Whoever waits will be ready, once it is notified alone or with all. -/
theorem notifyOne_signalled (hf : c.future.isSome) : c.notifyOne.signalled = true := by
  obtain ⟨permit, _ | all | _ | wake⟩ := c
  · cases hf
  · rfl
  · rfl
  · rfl

theorem notifyWaiters_signalled (hf : c.future.isSome) : c.notifyWaiters.signalled = true := by
  obtain ⟨permit, _ | all | _ | wake⟩ := c
  · cases hf
  · simp [notifyWaiters, signalled]
  · rfl
  · rfl

@[simp] theorem notifyOne_isSome (c : Cell) : c.notifyOne.future.isSome = c.future.isSome := by
  obtain ⟨permit, _ | all | _ | wake⟩ := c <;> rfl

@[simp] theorem notifyWaiters_isSome (c : Cell) : c.notifyWaiters.future.isSome = c.future.isSome := by
  obtain ⟨permit, _ | all | _ | wake⟩ := c <;> rfl

end Cell
end Notify
