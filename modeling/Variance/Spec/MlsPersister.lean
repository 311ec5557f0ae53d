import Variance.Lib.Notify
import Variance.Lib.Run

/-! `mls_persister.rs`: the background task that writes the MLS state some time after it was asked to, and `schedule`
and `stop`, called from anywhere between two of its steps. -/

namespace Variance

/-- Where the background task is. -/
inductive PersisterStage
  /-- Before it looks at `running`, and after it has found it set. -/
  | check
  | enter
  /-- At `notified().await`. -/
  | idle
  /-- Before the debounce timer, and while it runs. -/
  | quiet
  | debounce
  /-- In `do_persist`: before the state is exported, and before it is stored. -/
  | persist
  | write
  | exited
deriving DecidableEq

/-- `stopping` counts the calls of `stop` that have cleared `running` and are yet to notify. What is after it is kept for
the record: a call of `stop` has completed, and the calls of `schedule`, in all, before `stop` and by the last export. -/
structure MlsPersister where
  running : Bool
  notify : Notify.Cell
  stage : PersisterStage
  stopping : ℕ
  stopped : Bool
  scheduled : ℕ
  beforeStop : ℕ
  exported : ℕ
deriving DecidableEq

inductive PersistStep
  | schedule
  /-- The two halves of `stop`. -/
  | clearRunning
  | notifyWaiters
  /-- The background task goes on, and its debounce timer is up. -/
  | run
  | elapse
deriving DecidableEq

namespace MlsPersister

def schedule (p : MlsPersister) : MlsPersister :=
  { p with
    notify := p.notify.notifyOne
    scheduled := p.scheduled + 1
    beforeStop := if p.running then p.beforeStop + 1 else p.beforeStop }

def clearRunning (p : MlsPersister) : MlsPersister := { p with running := false, stopping := p.stopping + 1 }

def notifyWaiters (p : MlsPersister) : MlsPersister :=
  match p.stopping with
  | 0 => p
  | stopping + 1 => { p with stopping, notify := p.notify.notifyWaiters, stopped := true }

/-- The loop of the background task. -/
def run (p : MlsPersister) : MlsPersister :=
  match p.stage with
  | .check => { p with stage := if p.running then .enter else .exited }
  | .enter => { p with stage := .idle, notify := p.notify.listen }
  | .idle => { p with stage := if p.notify.poll.1 then .quiet else .idle, notify := p.notify.poll.2 }
  | .quiet => { p with stage := .debounce, notify := p.notify.listen }
  -- another request resets the timer
  | .debounce => { p with stage := if p.notify.poll.1 then .quiet else .debounce, notify := p.notify.poll.2 }
  | .persist => { p with stage := .write, exported := p.scheduled }
  | .write => { p with stage := .check }
  | .exited => p

/-- `timeout` polls its future before it looks at the timer. -/
def elapse (p : MlsPersister) : MlsPersister :=
  match p.stage, p.notify.future with
  | .debounce, some (.registered _) => { p with stage := .persist, notify := p.notify.drop }
  | _, _ => p

def step (p : MlsPersister) : PersistStep → MlsPersister
  | .schedule => p.schedule
  | .clearRunning => p.clearRunning
  | .notifyWaiters => p.notifyWaiters
  | .run => p.run
  | .elapse => p.elapse

/-- As `with_debounce` leaves it, the background task not begun. -/
def new : MlsPersister := ⟨true, ⟨false, none⟩, .check, 0, false, 0, 0, 0⟩

/-- Once the task has exited, the state was exported after every call of `schedule` that came before `stop`. -/
def Persisted (p : MlsPersister) : Prop := p.stage = .exited → p.beforeStop ≤ p.exported

/-- `stop` has completed, and the task waits for a wake-up that has not been sent. -/
def Hung (p : MlsPersister) : Prop := p.stopped = true ∧ p.stage = .idle ∧ p.notify.signalled = false

/-- `stop` is not called between an export (or the start) and the task's next look at `running` when a `schedule` has
come in between, and it does not complete between that look and the wait when there is no permit. -/
def Careful (p : MlsPersister) : PersistStep → Prop
  | .clearRunning => p.stage = .write ∨ p.stage = .check → p.scheduled ≤ p.exported
  | .run => p.stage = .enter → p.stopped = true → p.notify.permit = true
  | _ => True

instance (p : MlsPersister) : Decidable p.Persisted := inferInstanceAs (Decidable (_ → _))
instance (p : MlsPersister) : Decidable p.Hung := inferInstanceAs (Decidable (_ ∧ _))
instance (p : MlsPersister) (e : PersistStep) : Decidable (p.Careful e) := by
  cases e <;> unfold Careful <;> infer_instance

end MlsPersister

def persisterSys : StepSystem.Sys MlsPersister PersistStep where
  init p := p = .new
  step := MlsPersister.step

end Variance
