import Mathlib.Data.List.Basic
import Mathlib.Tactic.Common

/-! Step systems: the event carries every choice the environment makes, so a
step is a function. `Reach M G s` says that `s` ends a run of `M` each of whose
steps met the guard `G` in the state it was taken from. -/

namespace StepSystem

structure Sys (σ ε : Type*) where
  init : σ → Prop
  step : σ → ε → σ

variable {σ ε : Type*}

inductive Reach (M : Sys σ ε) (G : σ → ε → Prop) : σ → Prop
  | init {s : σ} : M.init s → Reach M G s
  | snoc {s : σ} {e : ε} : Reach M G s → G s e → Reach M G (M.step s e)

/-- Reachable with no guard. -/
abbrev Reachable (M : Sys σ ε) : σ → Prop := Reach M fun _ _ => True

variable {M : Sys σ ε} {G G' : σ → ε → Prop}

/-- An invariant of the initial states that every guarded step keeps holds along every guarded run. -/
theorem Reach.invariant {I : σ → Prop} (h0 : ∀ s, M.init s → I s)
    (hs : ∀ s e, I s → G s e → I (M.step s e)) {s : σ} (h : Reach M G s) : I s := by
  induction h with
  | init hi => exact h0 _ hi
  | snoc _ hg ih => exact hs _ _ ih hg

theorem Reach.mono (hG : ∀ s e, G s e → G' s e) {s : σ} (h : Reach M G s) : Reach M G' s := by
  induction h with
  | init hi => exact .init hi
  | snoc _ hg ih => exact .snoc ih (hG _ _ hg)

/-- A list of events run from an initial state ends in a reachable state. -/
theorem reachable_foldl {s : σ} (h : Reachable M s) (es : List ε) :
    Reachable M (es.foldl M.step s) := by
  induction es generalizing s with
  | nil => exact h
  | cons e es ih => exact ih (.snoc h trivial)

/-- Each event of the list meets the guard where it is taken. -/
def Guarded (M : Sys σ ε) (G : σ → ε → Prop) : σ → List ε → Prop
  | _, [] => True
  | s, e :: es => G s e ∧ Guarded M G (M.step s e) es

/-- What guards a run guards its beginning. -/
theorem Guarded.left {s : σ} {es fs : List ε} (h : Guarded M G s (es ++ fs)) : Guarded M G s es := by
  induction es generalizing s with
  | nil => trivial
  | cons e es ih => exact ⟨h.1, ih h.2⟩

/-- No guard is one that every run meets. -/
theorem guarded_true (s : σ) (es : List ε) : Guarded M (fun _ _ => True) s es := by
  induction es generalizing s with
  | nil => trivial
  | cons e es ih => exact ⟨trivial, ih _⟩

theorem reach_foldl {s : σ} (h : Reach M G s) {es : List ε} (hg : Guarded M G s es) :
    Reach M G (es.foldl M.step s) := by
  induction es generalizing s with
  | nil => exact h
  | cons e es ih => exact ih (.snoc h hg.1) hg.2

/-- Of what waits in a list, only what is taken out is gone. -/
theorem mem_eraseIdx_of_ne {α : Type*} {l : List α} {i : ℕ} {a b : α} (ha : l[i]? = some a) (hb : b ∈ l)
    (hne : b ≠ a) : b ∈ l.eraseIdx i := by
  obtain ⟨j, hj⟩ := List.mem_iff_getElem?.1 hb
  refine List.mem_eraseIdx_iff_getElem?.2 ⟨j, ?_, hj⟩
  rintro rfl
  exact hne (Option.some.inj (hj.symm.trans ha))

/-- Where an invariant and the guard make each step right, every step of a guarded run is right. -/
theorem Guarded.imp {I : σ → Prop} {P : σ → ε → Prop} (hP : ∀ s e, I s → G s e → P s e)
    (hI : ∀ s e, I s → G s e → I (M.step s e)) {s : σ} (h : I s) {es : List ε} (hg : Guarded M G s es) :
    Guarded M P s es := by
  induction es generalizing s with
  | nil => trivial
  | cons e es ih => exact ⟨hP s e h hg.1, ih (hI s e h hg.1) hg.2⟩

/-- Where an invariant makes the guard decide whether a step is right, the steps of a run that keeps the rules are all
right just when each of them meets the guard. -/
theorem guarded_iff_under {I : σ → Prop} {P H : σ → ε → Prop} (hP : ∀ s e, I s → H s e → (P s e ↔ G s e))
    (hI : ∀ s e, I s → H s e → G s e → I (M.step s e)) {s : σ} (h : I s) {es : List ε} (hH : Guarded M H s es) :
    Guarded M P s es ↔ Guarded M G s es := by
  induction es generalizing s with
  | nil => exact Iff.rfl
  | cons e es ih =>
    unfold Guarded
    rw [hP s e h hH.1]
    exact and_congr_right fun hg => ih (hI s e h hH.1 hg) hH.2

theorem guarded_of_forall {T : ε → Prop} (s : σ) {es : List ε} (hT : ∀ e ∈ es, T e) :
    Guarded M (fun _ e => T e) s es := by
  induction es generalizing s with
  | nil => trivial
  | cons e es ih => exact ⟨hT e List.mem_cons_self, ih _ fun e' he' => hT e' (List.mem_cons_of_mem _ he')⟩

/-- The same where the rules are about the events alone. -/
theorem guarded_iff_of_proper {I : σ → Prop} {P : σ → ε → Prop} {T : ε → Prop}
    (hP : ∀ s e, I s → T e → (P s e ↔ G s e)) (hI : ∀ s e, I s → T e → G s e → I (M.step s e)) {s : σ} (h : I s)
    (es : List ε) (hT : ∀ e ∈ es, T e) : Guarded M P s es ↔ Guarded M G s es :=
  guarded_iff_under hP hI h (guarded_of_forall s hT)

/-- The same where there are none. -/
theorem guarded_iff {I : σ → Prop} {P : σ → ε → Prop} (hP : ∀ s e, I s → (P s e ↔ G s e))
    (hI : ∀ s e, I s → G s e → I (M.step s e)) {s : σ} (h : I s) (es : List ε) :
    Guarded M P s es ↔ Guarded M G s es :=
  guarded_iff_of_proper (T := fun _ => True) (fun s e hs _ => hP s e hs) (fun s e hs _ => hI s e hs) h es
    fun _ _ => trivial

instance decidableGuarded [∀ s e, Decidable (G s e)] :
    ∀ (s : σ) (es : List ε), Decidable (Guarded M G s es)
  | _, [] => inferInstanceAs (Decidable True)
  | s, e :: es =>
    have := decidableGuarded (M.step s e) es
    inferInstanceAs (Decidable (G s e ∧ Guarded M G (M.step s e) es))

end StepSystem
