import Mathlib.Data.Nat.Basic
import Variance.Spec.MlsPersister

/-! When no persist request is lost. A `schedule` that falls between an export and the next look at `running` leaves a
permit, and a task that exits does not take it up; `notify_waiters` leaves nothing for a task that is yet to wait. -/

namespace Variance
namespace MlsPersister
variable {p : MlsPersister}

/-- What holds along careful runs. -/
structure Inv (p : MlsPersister) : Prop where
  counted : p.running = true → p.beforeStop = p.scheduled
  bounded : p.beforeStop ≤ p.scheduled
  stopping : 0 < p.stopping ∨ p.stopped = true → p.running = false
  covered : p.running = false → p.stage = .write ∨ p.stage = .check ∨ p.stage = .exited → p.beforeStop ≤ p.exported
  exited : p.stage = .exited → p.running = false
  waits : p.stage = .idle ∨ p.stage = .debounce → p.notify.future.isSome
  awake : p.stopped = true → p.stage = .idle → p.notify.signalled = true

theorem Inv.persisted (hp : Inv p) : p.Persisted := fun h => hp.covered (hp.exited h) (Or.inr (Or.inr h))

theorem Inv.not_hung (hp : Inv p) : ¬ p.Hung := by
  rintro ⟨hstopped, hidle, hsignalled⟩
  rw [hp.awake hstopped hidle] at hsignalled
  cases hsignalled

theorem inv_new : Inv new := by
  refine ⟨fun _ => rfl, le_rfl, ?_, fun _ _ => le_rfl, ?_, ?_, ?_⟩
  · rintro (h | h) <;> cases h
  · rintro ⟨⟩
  · rintro (h | h) <;> cases h
  · rintro ⟨⟩

/-- A request wakes the task or leaves a permit; after `stop` it does not count. -/
theorem Inv.schedule (hp : Inv p) : Inv p.schedule := by
  refine ⟨?_, ?_, hp.stopping, ?_, hp.exited, ?_, ?_⟩
  · intro (hrunning : p.running = true)
    have hcounted := hp.counted hrunning
    show (if p.running then p.beforeStop + 1 else p.beforeStop) = p.scheduled + 1
    rw [if_pos hrunning, hcounted]
  · have hbounded := hp.bounded
    show (if p.running then p.beforeStop + 1 else p.beforeStop) ≤ p.scheduled + 1
    split_ifs <;> omega
  · intro (hrunning : p.running = false) hstage
    show (if p.running then p.beforeStop + 1 else p.beforeStop) ≤ p.exported
    rw [if_neg (by simp [hrunning])]
    exact hp.covered hrunning hstage
  · intro hstage
    rw [show p.schedule.notify = p.notify.notifyOne from rfl, Notify.Cell.notifyOne_isSome]
    exact hp.waits hstage
  · intro _ hidle
    exact Notify.Cell.notifyOne_signalled (hp.waits (Or.inl hidle))

theorem Inv.clearRunning (hp : Inv p) (hg : p.Careful .clearRunning) : Inv p.clearRunning := by
  refine ⟨fun h => Bool.noConfusion h, hp.bounded, fun _ => rfl, ?_, fun _ => rfl, hp.waits, hp.awake⟩
  intro _ hstage
  by_cases hrunning : p.running = true
  · -- nothing was scheduled since the export
    rcases hstage with hwrite | hcheck | hexited
    · exact le_trans hp.bounded (hg (Or.inl hwrite))
    · exact le_trans hp.bounded (hg (Or.inr hcheck))
    · rw [hp.exited hexited] at hrunning
      cases hrunning
  · exact hp.covered (by simpa using hrunning) hstage

/-- A task that waits is woken. -/
theorem Inv.notifyWaiters (hp : Inv p) : Inv p.notifyWaiters := by
  unfold MlsPersister.notifyWaiters
  split
  · exact hp
  rename_i stopping hs
  have hcleared : p.running = false := hp.stopping (Or.inl (by omega))
  refine ⟨hp.counted, hp.bounded, fun _ => hcleared, hp.covered, hp.exited, ?_, ?_⟩
  · intro hstage
    rw [Notify.Cell.notifyWaiters_isSome]
    exact hp.waits hstage
  · intro _ hidle
    exact Notify.Cell.notifyWaiters_signalled (hp.waits (Or.inl hidle))

/-- The background task's step, one case for each place it can be at. -/
theorem Inv.run (hp : Inv p) (hg : p.Careful .run) : Inv p.run := by
  unfold MlsPersister.run
  cases hstage : p.stage with
  | check =>
    cases hrunning : p.running with
    | true =>
      refine ⟨fun _ => hp.counted hrunning, hp.bounded, ?_, ?_, ?_, ?_, ?_⟩
      · intro h
        rw [hp.stopping h] at hrunning
        cases hrunning
      all_goals simp
    | false =>
      refine ⟨by simp, hp.bounded, fun _ => rfl, fun _ _ => ?_, fun _ => rfl, by simp, by simp⟩
      exact hp.covered hrunning (Or.inr (Or.inl hstage))
  | enter =>
    refine ⟨hp.counted, hp.bounded, hp.stopping, by simp, by simp, fun _ => rfl, fun hstopped _ => ?_⟩
    rw [Notify.Cell.listen_signalled]
    exact hg hstage hstopped
  | idle =>
    have hfuture := hp.waits (Or.inl hstage)
    cases hpoll : p.notify.poll.1 with
    | true => exact ⟨hp.counted, hp.bounded, hp.stopping, by simp, by simp, by simp, by simp⟩
    | false =>
      refine ⟨hp.counted, hp.bounded, hp.stopping, by simp, by simp, fun _ => ?_, fun hstopped _ => ?_⟩
      · simp [Notify.Cell.poll_not_ready hpoll hfuture]
      · -- a task that is to be woken is ready when it polls
        rw [Notify.Cell.poll_fst, hp.awake hstopped hstage] at hpoll
        cases hpoll
  | quiet => exact ⟨hp.counted, hp.bounded, hp.stopping, by simp, by simp, fun _ => rfl, by simp⟩
  | debounce =>
    have hfuture := hp.waits (Or.inr hstage)
    cases hpoll : p.notify.poll.1 with
    | true => exact ⟨hp.counted, hp.bounded, hp.stopping, by simp, by simp, by simp, by simp⟩
    | false =>
      refine ⟨hp.counted, hp.bounded, hp.stopping, by simp, by simp, fun _ => ?_, by simp⟩
      simp [Notify.Cell.poll_not_ready hpoll hfuture]
  | persist => exact ⟨hp.counted, hp.bounded, hp.stopping, fun _ _ => hp.bounded, by simp, by simp, by simp⟩
  | write =>
    refine ⟨hp.counted, hp.bounded, hp.stopping, fun hrunning _ => ?_, by simp, by simp, by simp⟩
    exact hp.covered hrunning (Or.inl hstage)
  | exited => exact hp

theorem Inv.elapse (hp : Inv p) : Inv p.elapse := by
  unfold MlsPersister.elapse
  split
  · exact ⟨hp.counted, hp.bounded, hp.stopping, by simp, by simp, by simp, by simp⟩
  · exact hp

theorem Inv.step (hp : Inv p) {e : PersistStep} (hg : p.Careful e) : Inv (p.step e) := by
  cases e with
  | schedule => exact hp.schedule
  | clearRunning => exact hp.clearRunning hg
  | notifyWaiters => exact hp.notifyWaiters
  | run => exact hp.run hg
  | elapse => exact hp.elapse

/-- Along every careful run every request before `stop` is persisted by the time the task has exited, and a task that
has been stopped does not wait for ever. -/
theorem requests_persisted (p : MlsPersister) (h : StepSystem.Reach persisterSys Careful p) : p.Persisted ∧ ¬ p.Hung := by
  have hinv : Inv p := by
    refine h.invariant (I := Inv) ?_ fun p e hp hg => hp.step hg
    rintro _ rfl
    exact inv_new
  exact ⟨hinv.persisted, hinv.not_hung⟩

/-- Where `stop` is not careful, the task exits with the request left; where the wait is not, the task hangs. -/
theorem careless_loses : (p.running = true → p.beforeStop = p.scheduled → ¬ p.Careful .clearRunning →
      ∃ es : List PersistStep, ¬ (es.foldl step (p.step .clearRunning)).Persisted) ∧
    (¬ p.Careful .run → (p.step .run).Hung) := by
  refine ⟨fun hrunning hcounted hc => ?_, fun hc => ?_⟩
  · unfold Careful at hc
    push Not at hc
    obtain ⟨hstage, hlate⟩ := hc
    rcases hstage with hstage | hstage
    · refine ⟨[.run, .run], fun hp => ?_⟩
      simp [step, clearRunning, run, Persisted, hstage] at hp
      omega
    · refine ⟨[.run], fun hp => ?_⟩
      simp [step, clearRunning, run, Persisted, hstage] at hp
      omega
  · unfold Careful at hc
    push Not at hc
    obtain ⟨hstage, hstopped, hpermit⟩ := hc
    simp [step, run, Hung, hstage, hstopped, hpermit]

end MlsPersister

namespace PersistRequests

/-- A request is persisted; another comes in while the state is written, and then `stop`. -/
def steps : List PersistStep :=
  [.run, .run, .run, .schedule, .run, .run, .run, .elapse, .run, .schedule, .clearRunning, .notifyWaiters, .run, .run]

theorem last_request_lost : ¬ ∀ p : MlsPersister, StepSystem.Reachable persisterSys p → p.Persisted ∧ ¬ p.Hung := by
  intro h
  have hrun : ¬ (steps.foldl MlsPersister.step .new).Persisted := by decide
  exact hrun (h _ (StepSystem.reachable_foldl (M := persisterSys) (.init rfl) steps)).1

/-- A session whose last request is persisted before `stop`. -/
theorem stopped_in_time :
    ([.schedule, .run, .run, .run, .run, .run, .elapse, .clearRunning, .notifyWaiters, .run, .run, .run].foldl
      MlsPersister.step .new).Persisted := by
  refine (MlsPersister.requests_persisted _ ?_).1
  exact StepSystem.reach_foldl (M := persisterSys) (.init rfl) (by decide)

end PersistRequests
end Variance
