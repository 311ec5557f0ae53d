import Mathlib.Data.Set.Insert
import Mathlib.Tactic.Common

/-! Single-use keys. Their private parts live in memory, with a copy on disk that a crash falls back to;
some keys are shown, and whoever asks is led to one of them, to use it later. The pool is safe when
everyone led to a key can still use it, also after a crash. -/

namespace KeyPool

structure Pool (κ δ : Type*) where
  live : Set κ
  saved : Set κ
  shown : Set κ
  led : Set (δ × κ)
  /-- Those who have used the key they were led to, and those who never will. -/
  used : Set δ
  released : Set δ

variable {κ δ : Type*} {p : Pool κ δ} {spent unsaved : Prop} {d : δ} {k : κ}

/-- Led to a key and yet to use it. -/
def Pool.Waits (p : Pool κ δ) (d : δ) : Prop := d ∉ p.used ∧ d ∉ p.released

/-- `spent`: a shown key may have been used; `unsaved`: a live key may be missing on disk. -/
structure Safe (p : Pool κ δ) (spent unsaved : Prop) : Prop where
  owner : ∀ d d' k, (d, k) ∈ p.led → (d', k) ∈ p.led → d ∉ p.released → d' ∉ p.released → d = d'
  kept : ∀ d k, (d, k) ∈ p.led → p.Waits d → k ∈ p.live ∧ (k ∈ p.saved ∨ unsaved)
  shown : ∀ k ∈ p.shown, (spent ∧ ∃ d, (d, k) ∈ p.led ∧ d ∈ p.used ∧ d ∉ p.released) ∨
    k ∈ p.live ∧ (k ∈ p.saved ∨ unsaved)

namespace Safe

theorem weaken {spent' unsaved' : Prop} (h : Safe p spent unsaved) (hs : spent → spent')
    (hu : unsaved → unsaved') : Safe p spent' unsaved' := by
  refine ⟨h.owner, fun d k hl hw => ?_, fun k hk => ?_⟩
  · obtain ⟨hlive, hsaved⟩ := h.kept d k hl hw
    exact ⟨hlive, hsaved.imp_right hu⟩
  · rcases h.shown k hk with ⟨hsp, d, hd⟩ | ⟨hlive, hsaved⟩
    · exact Or.inl ⟨hs hsp, d, hd⟩
    · exact Or.inr ⟨hlive, hsaved.imp_right hu⟩

/-- Show `k` to `d`, when whoever else was led to it has given up. -/
theorem lead (h : Safe p spent unsaved) (hk : k ∈ p.shown)
    (hg : ∀ d', (d', k) ∈ p.led → d' = d ∨ d' ∈ p.released) :
    Safe { p with led := insert (d, k) p.led } spent unsaved := by
  refine ⟨?_, ?_, ?_⟩
  · intro a b j ha hb hra hrb
    rcases Set.mem_insert_iff.1 ha with ha | ha <;> rcases Set.mem_insert_iff.1 hb with hb | hb
    · cases ha
      cases hb
      rfl
    · cases ha
      exact ((hg b hb).resolve_right hrb).symm
    · cases hb
      exact (hg a ha).resolve_right hra
    · exact h.owner a b j ha hb hra hrb
  · intro a j ha hw
    rcases Set.mem_insert_iff.1 ha with ha | ha
    · cases ha
      rcases h.shown k hk with ⟨-, a, hla, hua, hra⟩ | hok
      · -- the one who used it can only be `d` itself, who then does not wait
        obtain rfl := (hg a hla).resolve_right hra
        exact (hw.1 hua).elim
      · exact hok
    · exact h.kept a j ha hw
  · intro j hj
    rcases h.shown j hj with ⟨hs, a, ha, hu⟩ | hok
    · exact Or.inl ⟨hs, a, Set.mem_insert_of_mem _ ha, hu⟩
    · exact Or.inr hok

/-- `d` uses its key: its private part goes from memory. -/
theorem use (h : Safe p spent unsaved) (hk : (d, k) ∈ p.led) (hw : p.Waits d) (live' : Set κ)
    (hl : ∀ j ∈ p.live, j ≠ k → j ∈ live') :
    Safe { p with live := live', used := insert d p.used } True unsaved := by
  refine ⟨h.owner, ?_, ?_⟩
  · intro a j ha hwa
    have hne : a ≠ d := fun heq => hwa.1 (heq ▸ Set.mem_insert d p.used)
    have hwa' : p.Waits a := ⟨fun hu => hwa.1 (Set.mem_insert_of_mem _ hu), hwa.2⟩
    obtain ⟨hlive, hsaved⟩ := h.kept a j ha hwa'
    refine ⟨hl j hlive ?_, hsaved⟩
    rintro rfl
    exact hne (h.owner a d j ha hk hwa.2 hw.2)
  · intro j hj
    rcases h.shown j hj with ⟨-, a, ha, hu, hr⟩ | ⟨hlive, hsaved⟩
    · exact Or.inl ⟨trivial, a, ha, Set.mem_insert_of_mem _ hu, hr⟩
    · by_cases hjk : j = k
      · subst hjk
        exact Or.inl ⟨trivial, d, hk, Set.mem_insert _ _, hw.2⟩
      · exact Or.inr ⟨hl j hlive hjk, hsaved⟩

/-- `d` gives up. -/
theorem release (h : Safe p spent unsaved) (hw : p.Waits d) :
    Safe { p with released := insert d p.released } spent unsaved := by
  refine ⟨?_, ?_, ?_⟩
  · intro a b j ha hb hra hrb
    exact h.owner a b j ha hb (fun hr => hra (Set.mem_insert_of_mem _ hr))
      fun hr => hrb (Set.mem_insert_of_mem _ hr)
  · intro a j ha hwa
    exact h.kept a j ha ⟨hwa.1, fun hr => hwa.2 (Set.mem_insert_of_mem _ hr)⟩
  · intro j hj
    rcases h.shown j hj with ⟨hs, a, ha, hu, hr⟩ | hok
    · refine Or.inl ⟨hs, a, ha, hu, fun hr' => ?_⟩
      rcases Set.mem_insert_iff.1 hr' with rfl | hr'
      · exact hw.1 hu
      · exact hr hr'
    · exact Or.inr hok

/-- Memory grows; the disk stays as it is or takes what is in memory. -/
theorem grow (h : Safe p spent unsaved) {live' saved' : Set κ} (hl : ∀ j ∈ p.live, j ∈ live')
    (hs : ∀ j ∈ p.live, j ∈ p.saved → j ∈ saved') :
    Safe { p with live := live', saved := saved' } spent unsaved := by
  have hok (j : κ) (hj : j ∈ p.live ∧ (j ∈ p.saved ∨ unsaved)) : j ∈ live' ∧ (j ∈ saved' ∨ unsaved) :=
    ⟨hl j hj.1, hj.2.imp_left (hs j hj.1)⟩
  refine ⟨h.owner, fun d k hd hw => hok k (h.kept d k hd hw), fun k hk => ?_⟩
  exact (h.shown k hk).imp_right (hok k)

/-- Other keys are shown, all of them live. -/
theorem replace (h : Safe p spent unsaved) (shown' : Set κ) (unsaved' : Prop)
    (hk : ∀ j ∈ shown', j ∈ p.live ∧ (j ∈ p.saved ∨ unsaved')) (hu : unsaved → unsaved') :
    Safe { p with shown := shown' } False unsaved' :=
  ⟨h.owner, fun d k hl hw => (h.kept d k hl hw).imp_right fun hs => hs.imp_right hu,
    fun k hk' => Or.inr (hk k hk')⟩

/-- What is in memory goes to disk. -/
theorem save (h : Safe p spent unsaved) (saved' : Set κ) (hs : ∀ j ∈ p.live, j ∈ saved') :
    Safe { p with saved := saved' } spent False := by
  refine ⟨h.owner, fun d k hl hw => ?_, fun k hk => ?_⟩
  · have hlive := (h.kept d k hl hw).1
    exact ⟨hlive, Or.inl (hs k hlive)⟩
  · rcases h.shown k hk with hsp | ⟨hlive, -⟩
    · exact Or.inl hsp
    · exact Or.inr ⟨hlive, Or.inl (hs k hlive)⟩

/-- A crash, when nothing that is needed is missing on disk: what was saved is live, and nothing is shown. -/
theorem crash (h : Safe p spent False) (live' saved' : Set κ) (hl : ∀ j ∈ p.saved, j ∈ live')
    (hs : ∀ j ∈ p.saved, j ∈ saved') :
    Safe { p with live := live', saved := saved', shown := ∅ } False False := by
  refine ⟨h.owner, fun d k hd hw => ?_, by simp⟩
  have hsaved := (h.kept d k hd hw).2.resolve_right not_false
  exact ⟨hl k hsaved, Or.inl (hs k hsaved)⟩

end Safe

end KeyPool
