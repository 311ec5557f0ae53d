import Mathlib.Algebra.Order.Ring.Int
import Mathlib.Data.List.Basic
import Mathlib.Tactic.Common

/-! The greatest of the integers in a list, kept up one at a time and compared between lists. -/

namespace Maxima
variable {l l' : List ℤ} {a x low : ℤ}

theorem eq_some_iff : l.max? = some a ↔ a ∈ l ∧ ∀ b ∈ l, b ≤ a := List.max?_eq_some_iff

theorem exists_of_mem (h : x ∈ l) : ∃ a, l.max? = some a ∧ x ≤ a := by
  cases hmax : l.max? with
  | none =>
    rw [List.max?_eq_none_iff.1 hmax] at h
    cases h
  | some a => exact ⟨a, rfl, (eq_some_iff.1 hmax).2 x h⟩

theorem lt_max?_iff : (∃ a, l.max? = some a ∧ low < a) ↔ ∃ x ∈ l, low < x := by
  constructor
  · rintro ⟨a, ha, hlt⟩
    exact ⟨a, (eq_some_iff.1 ha).1, hlt⟩
  · rintro ⟨x, hx, hlt⟩
    obtain ⟨a, ha, hle⟩ := exists_of_mem hx
    exact ⟨a, ha, lt_of_lt_of_le hlt hle⟩

/-- One more, against what stands for the greatest so far, or for nothing. -/
theorem max?_concat (h : low ≤ x) :
    (l ++ [x]).max? = some (if l.max?.getD low < x then x else l.max?.getD low) := by
  rw [eq_some_iff]
  cases hmax : l.max? with
  | none =>
    rw [List.max?_eq_none_iff.1 hmax]
    dsimp only [Option.getD]
    split_ifs with hlt
    · simp
    · have hlow : low = x := by omega
      simp [hlow]
  | some a =>
    obtain ⟨hmem, hle⟩ := eq_some_iff.1 hmax
    dsimp only [Option.getD]
    split_ifs with hlt
    · refine ⟨by simp, fun b hb => ?_⟩
      rcases List.mem_append.1 hb with hb | hb
      · exact le_trans (hle b hb) hlt.le
      · exact le_of_eq (List.mem_singleton.1 hb)
    · refine ⟨List.mem_append_left _ hmem, fun b hb => ?_⟩
      rcases List.mem_append.1 hb with hb | hb
      · exact hle b hb
      · rw [List.mem_singleton.1 hb]
        exact not_lt.1 hlt

/-- Part of a list has the same greatest one just if it has one as great as each. -/
theorem max?_eq_iff_dominated (h : ∀ x ∈ l, x ∈ l') :
    l'.max? = l.max? ↔ ∀ y ∈ l', ∃ x ∈ l, y ≤ x := by
  constructor
  · intro heq y hy
    obtain ⟨a, ha, hle⟩ := exists_of_mem hy
    rw [heq] at ha
    exact ⟨a, (eq_some_iff.1 ha).1, hle⟩
  · intro hdom
    cases hmax : l.max? with
    | none =>
      rw [List.max?_eq_none_iff] at hmax ⊢
      refine List.eq_nil_iff_forall_not_mem.2 fun y hy => ?_
      obtain ⟨x, hx, -⟩ := hdom y hy
      rw [hmax] at hx
      cases hx
    | some a =>
      obtain ⟨hmem, hle⟩ := eq_some_iff.1 hmax
      refine eq_some_iff.2 ⟨h a hmem, fun y hy => ?_⟩
      obtain ⟨x, hx, hyx⟩ := hdom y hy
      exact le_trans hyx (hle x hx)

end Maxima
