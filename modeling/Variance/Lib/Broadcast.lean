import Mathlib.Data.List.Basic
import Mathlib.Data.Nat.Notation
import Mathlib.Tactic.Common

/-! A broadcast channel with one receiver. It keeps the last `capacity` values that were sent: a receiver gets nothing
of what was sent before it subscribed, and one that falls behind loses the oldest. -/

namespace Broadcast

structure Channel (α : Type*) where
  capacity : ℕ
  sent : List α
  /-- The place of the receiver, once it has subscribed. -/
  next : Option ℕ
  placed : ∀ i, next = some i → i ≤ sent.length

inductive Received (α : Type*)
  | value (a : α)
  | lagged (missed : ℕ)
  | empty

variable {α : Type*} {c : Channel α} {a b : α} {room : ℕ}

namespace Channel

def new (α : Type*) (capacity : ℕ) : Channel α := ⟨capacity, [], none, fun _ h => by cases h⟩

def send (c : Channel α) (a : α) : Channel α where
  capacity := c.capacity
  sent := c.sent ++ [a]
  next := c.next
  placed i h := by
    have := c.placed i h
    rw [List.length_append]
    omega

def subscribe (c : Channel α) : Channel α :=
  ⟨c.capacity, c.sent, some c.sent.length, fun _ h => Nat.le_of_eq (Option.some.inj h).symm⟩

/-- A receiver that is behind hears of it, and goes on with the oldest value that is kept. -/
def recv (c : Channel α) : Received α × Channel α :=
  match c.next with
  | none => (.empty, c)
  | some i =>
    if i + c.capacity < c.sent.length then
      (.lagged (c.sent.length - c.capacity - i),
        ⟨c.capacity, c.sent, some (c.sent.length - c.capacity), fun _ h => by cases h; exact Nat.sub_le _ _⟩)
    else if h : i < c.sent.length then
      (.value c.sent[i], ⟨c.capacity, c.sent, some (i + 1), fun _ hi => by cases hi; exact h⟩)
    else (.empty, c)

/-- How far the receiver has to go. -/
def unread (c : Channel α) : ℕ := c.next.elim 0 fun i => c.sent.length - i

/-- The value lies ahead of the receiver, and stays when `room` more are sent. -/
def Ahead (c : Channel α) (room : ℕ) (a : α) : Prop :=
  ∃ i j, c.next = some i ∧ i ≤ j ∧ c.sent[j]? = some a ∧ c.sent.length + room ≤ j + c.capacity

theorem not_ahead_of_none (h : c.next = none) : ¬ c.Ahead room a := by
  rintro ⟨i, j, hi, -⟩
  rw [h] at hi
  cases hi

/-- When the receiver has caught up, nothing is ahead. -/
theorem not_ahead_of_unread (h : c.unread = 0) : ¬ c.Ahead room a := by
  rintro ⟨i, j, hi, hij, hj, -⟩
  obtain ⟨hlt, -⟩ := List.getElem?_eq_some_iff.1 hj
  unfold unread at h
  rw [hi] at h
  have : c.sent.length - i = 0 := h
  omega

theorem Ahead.subscribed (h : c.Ahead room a) : c.next ≠ none ∧ room < c.capacity := by
  obtain ⟨i, j, hi, -, hj, hroom⟩ := h
  obtain ⟨hlt, -⟩ := List.getElem?_eq_some_iff.1 hj
  refine ⟨by simp [hi], by omega⟩

/-- A value sent takes one place of the room of the others. -/
theorem ahead_send_iff : (c.send b).Ahead room a ↔
    c.Ahead (room + 1) a ∨ (a = b ∧ c.next ≠ none ∧ room < c.capacity) := by
  constructor
  · rintro ⟨i, j, hi, hij, hj, hroom⟩
    have hlen : (c.send b).sent.length = c.sent.length + 1 := by simp [send]
    rw [hlen] at hroom
    have hcap : (c.send b).capacity = c.capacity := rfl
    rw [hcap] at hroom
    by_cases hlt : j < c.sent.length
    · refine Or.inl ⟨i, j, hi, hij, ?_, by omega⟩
      rwa [send, List.getElem?_append_left hlt] at hj
    · have hj' := (List.getElem?_eq_some_iff.1 hj).1
      rw [hlen] at hj'
      obtain rfl : j = c.sent.length := by omega
      have hlast : some b = some a := by simpa [send] using hj
      exact Or.inr ⟨(Option.some.inj hlast).symm, by rw [show c.next = some i from hi]; simp, by omega⟩
  · rintro (⟨i, j, hi, hij, hj, hroom⟩ | ⟨rfl, hnext, hroom⟩)
    · have hlt := (List.getElem?_eq_some_iff.1 hj).1
      refine ⟨i, j, hi, hij, ?_, ?_⟩
      · rwa [send, List.getElem?_append_left hlt]
      · simp only [send, List.length_append, List.length_singleton]
        omega
    · obtain ⟨i, hi⟩ := Option.ne_none_iff_exists'.1 hnext
      refine ⟨i, c.sent.length, hi, c.placed i hi, by simp [send], ?_⟩
      simp only [send, List.length_append, List.length_singleton]
      omega

/-! What a receive takes -/

/-- What is taken is not ahead any more, unless it was sent again; the rest still is. -/
theorem Ahead.recv (h : c.Ahead 0 a) : c.recv.2.Ahead 0 a ∨ c.recv.1 = .value a := by
  obtain ⟨i, j, hi, hij, hj, hroom⟩ := h
  obtain ⟨hlt, hget⟩ := List.getElem?_eq_some_iff.1 hj
  unfold Channel.recv
  rw [hi]
  dsimp only
  by_cases hlag : i + c.capacity < c.sent.length
  · rw [if_pos hlag]
    exact Or.inl ⟨_, j, rfl, by omega, hj, hroom⟩
  · rw [if_neg hlag, dif_pos (by omega)]
    by_cases heq : i = j
    · subst heq
      exact Or.inr (by rw [hget])
    · exact Or.inl ⟨_, j, rfl, by omega, hj, hroom⟩

theorem recv_unread (h : c.unread ≠ 0) : c.recv.2.unread < c.unread := by
  unfold unread at h
  unfold Channel.recv unread
  cases hi : c.next with
  | none =>
    rw [hi] at h
    exact absurd rfl h
  | some i =>
    rw [hi] at h
    have hlt : c.sent.length - i ≠ 0 := h
    dsimp only
    split_ifs with hlag hin
    · show c.sent.length - (c.sent.length - c.capacity) < c.sent.length - i
      omega
    · show c.sent.length - (i + 1) < c.sent.length - i
      omega
    · omega

end Channel

end Broadcast
