import Mathlib.Data.List.Infix

/-! Runs of one value in a record kept newest first: how long the run at its head is, and whether one of a given length
is anywhere in it. -/

namespace Streak
variable {α : Type*} {a b : α} {k : ℕ} {l : List α}

def HasRun (a : α) (k : ℕ) (l : List α) : Prop := List.replicate k a <:+: l

theorem hasRun_nil (hk : 0 < k) : ¬ HasRun a k [] := by
  unfold HasRun
  rw [List.infix_nil, List.replicate_eq_nil_iff]
  omega

variable [DecidableEq α]

instance (a : α) (k : ℕ) (l : List α) : Decidable (HasRun a k l) := inferInstanceAs (Decidable (_ <:+: _))

/-- The length of the run of `a` that the record begins with. -/
def streak (a : α) (l : List α) : ℕ := (l.takeWhile (· = a)).length

@[simp] theorem streak_nil : streak a [] = 0 := rfl

@[simp] theorem streak_cons_self : streak a (a :: l) = streak a l + 1 := by simp [streak]

theorem streak_cons_of_ne (h : b ≠ a) : streak a (b :: l) = 0 := by simp [streak, h]

/-- The record begins with a run as long as its first run at most. -/
theorem replicate_prefix_iff : List.replicate k a <+: l ↔ k ≤ streak a l := by
  induction l generalizing k with
  | nil => simp
  | cons b l ih =>
    cases k with
    | zero => simp
    | succ k =>
      rw [List.replicate_succ, List.cons_prefix_cons]
      by_cases h : b = a
      · subst h
        rw [streak_cons_self, ih]
        simp
      · rw [streak_cons_of_ne h]
        simp [Ne.symm h]

theorem hasRun_cons_iff : HasRun a k (b :: l) ↔ k ≤ streak a (b :: l) ∨ HasRun a k l := by
  unfold HasRun
  rw [List.infix_cons_iff, replicate_prefix_iff]

/-- Another value completes no run. -/
theorem hasRun_cons_of_ne (hk : 0 < k) (h : b ≠ a) : HasRun a k (b :: l) ↔ HasRun a k l := by
  rw [hasRun_cons_iff, streak_cons_of_ne h]
  exact or_iff_right (by omega)

end Streak
