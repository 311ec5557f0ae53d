import Mathlib.Data.List.Induction
import Mathlib.Tactic.Common

/-! What arrives and may be ended by what arrives later; above all arrivals under keys, a later one in the place of an
earlier one with the same key. -/

namespace Arrivals

variable {α κ : Type*} (key : α → κ)

/-- The arrival has come, and none since has ended what it does. -/
def InEffect (ends : α → α → Prop) (as : List α) (a : α) : Prop :=
  ∃ before after, as = before ++ a :: after ∧ ∀ b ∈ after, ¬ ends b a

/-- The arrivals that are still in place: no later one has the same key. -/
def Standing (as : List α) (a : α) : Prop :=
  ∃ before after, as = before ++ a :: after ∧ ∀ b ∈ after, key b ≠ key a

variable {key} {as bs pool : List α} {a b : α} {top : α → Prop} {ends : α → α → Prop}

theorem InEffect.mem (h : InEffect ends as a) : a ∈ as := by
  obtain ⟨before, after, rfl, -⟩ := h
  simp

theorem InEffect.mono {more : α → α → Prop} (hends : ∀ b a, ends b a → more b a) (h : InEffect more as a) :
    InEffect ends as a := by
  obtain ⟨before, after, heq, hafter⟩ := h
  exact ⟨before, after, heq, fun b hb hend => hafter b hb (hends b a hend)⟩

/-- Nothing that came after has ended it. -/
theorem InEffect.append (h : InEffect ends as a) (hbs : ∀ b ∈ bs, ¬ ends b a) : InEffect ends (as ++ bs) a := by
  obtain ⟨before, after, rfl, hafter⟩ := h
  refine ⟨before, after ++ bs, by simp, fun b hb => ?_⟩
  exact (List.mem_append.1 hb).elim (hafter b) (hbs b)

theorem not_inEffect_nil : ¬ InEffect ends [] a := fun h => by simpa using h.mem

/-- The last one has its effect, and of the others those that it does not end. -/
theorem inEffect_concat : InEffect ends (as ++ [b]) a ↔ a = b ∨ InEffect ends as a ∧ ¬ ends b a := by
  constructor
  · rintro ⟨before, after, heq, hafter⟩
    rcases List.eq_nil_or_concat after with rfl | ⟨after, c, rfl⟩
    · obtain ⟨-, rfl⟩ : as = before ∧ b = a := by simpa using heq
      exact Or.inl rfl
    · have hcat : as ++ [b] = (before ++ a :: after) ++ [c] := by simpa using heq
      obtain ⟨rfl, hbc⟩ := List.append_inj' hcat rfl
      obtain rfl : b = c := by simpa using hbc
      exact Or.inr ⟨⟨before, after, rfl, fun x hx => hafter x (by simp [hx])⟩, hafter b (by simp)⟩
  · rintro (rfl | ⟨⟨before, after, rfl, hafter⟩, hne⟩)
    · exact ⟨as, [], rfl, by simp⟩
    · refine ⟨before, after ++ [b], by simp, fun x hx => ?_⟩
      rcases List.mem_append.1 hx with hx | hx
      · exact hafter x hx
      · rw [List.mem_singleton.1 hx]
        exact hne

/-- What is in place is what no later one with the same key has ended. -/
theorem standing_iff : Standing key as a ↔ InEffect (fun b a => key b = key a) as a := Iff.rfl

theorem Standing.mem (h : Standing key as a) : a ∈ as := (standing_iff.1 h).mem

theorem not_standing_nil : ¬ Standing key [] a := fun h => not_inEffect_nil (standing_iff.1 h)

/-- The last one stands, and of the others those it leaves in place. -/
theorem standing_concat : Standing key (as ++ [b]) a ↔ a = b ∨ (Standing key as a ∧ key b ≠ key a) := by
  rw [standing_iff, standing_iff, inEffect_concat]

theorem standing_singleton : Standing key [b] a ↔ a = b := by
  have := @standing_concat α κ key [] a b
  simpa [not_standing_nil] using this

/-- Under the key of each arrival one stands. -/
theorem exists_standing (h : a ∈ as) : ∃ b, Standing key as b ∧ key b = key a := by
  induction as using List.reverseRecOn with
  | nil => simp at h
  | append_singleton as c ih =>
    by_cases hc : key c = key a
    · exact ⟨c, standing_concat.2 (Or.inl rfl), hc⟩
    · obtain ha | rfl : a ∈ as ∨ a = c := by simpa using h
      · obtain ⟨b, hb, hba⟩ := ih ha
        exact ⟨b, standing_concat.2 (Or.inr ⟨hb, hba.symm ▸ hc⟩), hba⟩
      · exact (hc rfl).elim

theorem Standing.unique (ha : Standing key as a) (hb : Standing key as b) (h : key a = key b) : a = b := by
  induction as using List.reverseRecOn with
  | nil => exact (not_standing_nil ha).elim
  | append_singleton as c ih =>
    rcases standing_concat.1 ha with rfl | ⟨ha, hca⟩
    · rcases standing_concat.1 hb with rfl | ⟨-, hcb⟩
      · rfl
      · exact (hcb h).elim
    · rcases standing_concat.1 hb with rfl | ⟨hb, -⟩
      · exact (hca h.symm).elim
      · exact ih ha hb

/-- Where no arrival of the pool displaces a top one but another top one, a top one stands as soon as one has come. -/
theorem top_standing (hpool : ∀ a ∈ pool, ∀ b ∈ pool, top a → ¬ top b → key a ≠ key b) (has : as ⊆ pool)
    (ha : a ∈ as) (htop : top a) : ∃ b, Standing key as b ∧ key b = key a ∧ top b := by
  obtain ⟨b, hb, hba⟩ := @exists_standing α κ key as a ha
  refine ⟨b, hb, hba, ?_⟩
  by_contra hnot
  exact hpool a (has ha) b (has hb.mem) htop hnot hba.symm

end Arrivals
