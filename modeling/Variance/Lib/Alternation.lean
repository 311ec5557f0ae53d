import Mathlib.Data.List.Nodup
import Mathlib.Tactic.Common

/-! Logs in which keys go up and down. A log alternates when no key goes down twice without having come up in
between. -/

namespace Alternation

variable {ε κ : Type*} {up down : κ → ε} {log : List ε} {k : κ} {e : ε}

def Alternates (up down : κ → ε) (log : List ε) : Prop :=
  ∀ k l₁ l₂ l₃, log = l₁ ++ down k :: (l₂ ++ down k :: l₃) → up k ∈ l₂

/-- The key went down and has not come up since. -/
def Down (up down : κ → ε) (k : κ) (log : List ε) : Prop := ∃ l₁ l₂, log = l₁ ++ down k :: l₂ ∧ up k ∉ l₂

theorem alternates_nil : Alternates up down [] := by
  intro k l₁ l₂ l₃ h
  simp at h

/-- The last entry of a list with something in the middle is the last of what follows, or the middle. -/
theorem snoc_eq_append_cons {a l₁ l₂ : List ε} {x : ε} (h : a ++ [e] = l₁ ++ x :: l₂) :
    l₂ = [] ∧ a = l₁ ∧ e = x ∨ ∃ l, l₂ = l ++ [e] ∧ a = l₁ ++ x :: l := by
  rcases List.eq_nil_or_concat l₂ with rfl | ⟨l, y, rfl⟩
  · obtain ⟨rfl, hx⟩ := List.append_inj' h rfl
    exact Or.inl ⟨rfl, rfl, List.singleton_inj.1 hx⟩
  · rw [List.concat_eq_append, ← List.cons_append, ← List.append_assoc] at h
    obtain ⟨rfl, hy⟩ := List.append_inj' h rfl
    exact Or.inr ⟨l, by rw [List.concat_eq_append, List.singleton_inj.1 hy], rfl⟩

theorem Down.of_snoc (h : Down up down k (log ++ [e])) : e = down k ∨ Down up down k log ∧ e ≠ up k := by
  obtain ⟨l₁, l₂, heq, hup⟩ := h
  rcases snoc_eq_append_cons heq with ⟨-, -, rfl⟩ | ⟨l, rfl, rfl⟩
  · exact Or.inl rfl
  · rw [List.mem_append, not_or, List.mem_singleton] at hup
    exact Or.inr ⟨⟨l₁, l, rfl, hup.1⟩, Ne.symm hup.2⟩

theorem Down.of_append_map {ks : List κ} (hdown : Function.Injective down)
    (h : Down up down k (log ++ ks.map down)) : k ∈ ks ∨ Down up down k log := by
  induction ks generalizing log with
  | nil => exact Or.inr (by simpa using h)
  | cons j ks ih =>
    rw [List.map_cons, List.append_cons] at h
    rcases ih h with hk | hj
    · exact Or.inl (List.mem_cons_of_mem j hk)
    · rcases hj.of_snoc with heq | ⟨hlog, -⟩
      · exact Or.inl (by rw [hdown heq]; exact List.mem_cons_self)
      · exact Or.inr hlog

theorem alternates_snoc :
    Alternates up down (log ++ [e]) ↔ Alternates up down log ∧ ∀ k, e = down k → ¬ Down up down k log := by
  constructor
  · intro h
    refine ⟨fun k l₁ l₂ l₃ heq => ?_, ?_⟩
    · refine h k l₁ l₂ (l₃ ++ [e]) ?_
      rw [heq]
      simp
    · rintro k rfl ⟨l₁, l₂, rfl, hup⟩
      exact hup (h k l₁ l₂ [] (by simp))
  · rintro ⟨h, hdown⟩ k l₁ l₂ l₃ heq
    rw [← List.cons_append, ← List.append_assoc] at heq
    rcases snoc_eq_append_cons heq with ⟨-, rfl, rfl⟩ | ⟨l, -, rfl⟩
    · by_contra hup
      exact hdown k rfl ⟨l₁, l₂, rfl, hup⟩
    · exact h k l₁ l₂ l (by simp)

/-- Distinct keys may go down together just when each of them is up. -/
theorem alternates_append_map {ks : List κ} (hdown : Function.Injective down) (hne : ∀ j k, down j ≠ up k)
    (hks : ks.Nodup) :
    Alternates up down (log ++ ks.map down) ↔ Alternates up down log ∧ ∀ k ∈ ks, ¬ Down up down k log := by
  induction ks generalizing log with
  | nil => simp
  | cons j ks ih =>
    obtain ⟨hj, hnd⟩ := List.nodup_cons.1 hks
    rw [List.map_cons, List.append_cons, ih hnd, alternates_snoc]
    constructor
    · rintro ⟨⟨h, hlog⟩, hrest⟩
      refine ⟨h, fun k hk hk' => ?_⟩
      rcases List.mem_cons.1 hk with rfl | hk
      · exact hlog k rfl hk'
      · obtain ⟨l₁, l₂, rfl, hup⟩ := hk'
        exact hrest k hk ⟨l₁, l₂ ++ [down j], by simp, by simp [hup, (hne j k).symm]⟩
    · rintro ⟨h, hall⟩
      refine ⟨⟨h, fun k hk => ?_⟩, fun k hk hk' => ?_⟩
      · rw [← hdown hk]
        exact hall j List.mem_cons_self
      · rcases hk'.of_snoc with heq | ⟨hlog, -⟩
        · exact hj (by rw [hdown heq]; exact hk)
        · exact hall k (List.mem_cons_of_mem j hk) hlog

end Alternation
