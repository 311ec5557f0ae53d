import Variance.Sanity.IdealMls
import Variance.Spec.Membership

/-! The leaves of the ideal MLS, where a did signs with itself. -/

namespace Variance
namespace IdealMls

def ownLeaf (d : Did) : Leaf Did := ⟨d, d⟩

def roster : Roster idealMls where
  Key := Did
  keyOf d := d
  leaf k := ownLeaf k.did
  roster g := g.members.zipIdx.map fun x => (x.2, ownLeaf x.1)
  adds c := c.adds.map ownLeaf
  proposes _ := []

/-- No did twice, now and once the pending commit is merged. -/
def ValidGroup (g : GroupState) : Prop :=
  g.members.Nodup ∧ ∀ c, g.pending = some c → (g.apply c).members.Nodup

variable {p p' : Provider} {g g' : GroupState} {c : Commit} {l : Leaf Did}

theorem has_iff : roster.Has g l ↔
    (∃ d ∈ g.members, l = ownLeaf d) ∨ ∃ c, g.pending = some c ∧ ∃ d ∈ c.adds, l = ownLeaf d := by
  unfold Roster.Has
  refine or_congr ⟨?_, ?_⟩ ⟨?_, ?_⟩
  · rintro ⟨i, hi⟩
    obtain ⟨x, hx, heq⟩ := List.mem_map.1 hi
    exact ⟨x.1, List.fst_mem_of_mem_zipIdx hx, (Prod.mk.inj heq).2.symm⟩
  · rintro ⟨d, hd, rfl⟩
    obtain ⟨i, hi, rfl⟩ := List.mem_iff_getElem.1 hd
    exact ⟨i, List.mem_map.2 ⟨(g.members[i], i), List.mk_mem_zipIdx_iff_getElem?.2 (by simp [hi]), rfl⟩⟩
  · rintro (⟨k, hk, hl⟩ | ⟨q, -, hq⟩)
    · obtain ⟨d, hd, rfl⟩ := List.mem_map.1 hl
      exact ⟨k, hk, d, hd, rfl⟩
    · cases hq
  · rintro ⟨k, hk, d, hd, rfl⟩
    exact Or.inl ⟨k, hk, List.mem_map.2 ⟨d, hd, rfl⟩⟩

/-- A commit applied brings in what it adds. -/
theorem has_apply (h : roster.Has (g.apply c) l) : roster.Has g l ∨ ∃ d ∈ c.adds, l = ownLeaf d := by
  rcases has_iff.1 h with ⟨d, hd, rfl⟩ | ⟨k, hk, -⟩
  · rcases List.mem_append.1 hd with hd | hd
    · exact Or.inl (has_iff.2 (Or.inl ⟨d, (List.mem_filter.1 hd).1, rfl⟩))
    · exact Or.inr ⟨d, hd, rfl⟩
  · cases hk

theorem has_propose {α : Type} {a : α} (h : roster.Has (propose p g c a).2.2 l) :
    roster.Has g l ∨ ∃ d ∈ c.adds, l = ownLeaf d := by
  unfold propose at h
  split_ifs at h
  · exact Or.inl h
  · rcases has_iff.1 h with h | ⟨k, hk, d, hd, rfl⟩
    · exact Or.inl (has_iff.2 (Or.inl h))
    · obtain rfl := Option.some.inj hk
      exact Or.inr ⟨d, hd, rfl⟩

theorem valid_propose {α : Type} {a : α} (hg : ValidGroup g) (hc : (g.apply c).members.Nodup) :
    ValidGroup (propose p g c a).2.2 := by
  unfold propose
  split_ifs
  · exact hg
  · refine ⟨hg.1, fun k hk => ?_⟩
    obtain rfl := Option.some.inj hk
    exact hc

theorem valid_apply (hc : (g.apply c).members.Nodup) : ValidGroup (g.apply c) := ⟨hc, fun _ h => by cases h⟩

theorem nodup_apply (hg : g.members.Nodup) (ha : c.adds = []) : (g.apply c).members.Nodup := by
  simp only [GroupState.apply, ha, List.append_nil]
  exact hg.filter _

/-- A message that goes through: a commit that is applied, a proposal that is kept, or nothing. -/
theorem receive_cases (m : Message) (p : Provider) (g : GroupState) :
    (idealMls.receive m p g).2 = g ∨
    (∃ d, (idealMls.receive m p g).2 = { g with proposals := g.proposals ++ [d] }) ∨
    ∃ c, (g.apply c).members.Nodup ∧ (idealMls.receive m p g).2 = g.apply c := by
  cases m with
  | commit id c =>
    by_cases h : id = g.id ∧ c.epoch = g.epoch ∧ c.author ∈ g.members ∧ (g.apply c).members.Nodup
    · refine Or.inr (Or.inr ⟨c, h.2.2.2, ?_⟩)
      simp only [OpenMls.receive, idealMls, if_pos h, commitTo]
    · refine Or.inl ?_
      simp only [OpenMls.receive, idealMls, if_neg h]
  | welcome w => exact Or.inl rfl
  | proposal id d =>
    by_cases h : id = g.id
    · refine Or.inr (Or.inl ⟨d, ?_⟩)
      simp only [OpenMls.receive, idealMls, if_pos h]
    · refine Or.inl ?_
      simp only [OpenMls.receive, idealMls, if_neg h]
  | app id d b =>
    refine Or.inl ?_
    by_cases h : id = g.id ∧ d ∈ g.members
    · simp only [OpenMls.receive, idealMls, if_pos h]
    · simp only [OpenMls.receive, idealMls, if_neg h]

theorem valid_run (c : GroupCall idealMls) (hg : ValidGroup g) : ValidGroup (c.run p g).2 := by
  cases c with
  | addMembers d rng kp =>
    simp only [GroupCall.run, idealMls]
    split_ifs with hn
    · refine valid_propose hg ?_
      simpa [GroupState.apply] using hn
    · exact hg
  | removeMembers d rng i => exact valid_propose hg (nodup_apply hg.1 rfl)
  | mergePendingCommit =>
    cases hp : g.pending with
    | none => simpa only [GroupCall.run, idealMls, hp] using hg
    | some k => simpa only [GroupCall.run, idealMls, hp, commitTo] using valid_apply (hg.2 k hp)
  | clearPendingCommit => exact ⟨hg.1, fun _ h => by cases h⟩
  | createMessage d rng b =>
    simp only [GroupCall.run, idealMls]
    split_ifs
    · exact hg
    · exact hg
  | receive m =>
    change ValidGroup (idealMls.receive m p g).2
    rcases receive_cases m p g with h | ⟨d, h⟩ | ⟨k, hk, h⟩
    · rw [h]
      exact hg
    · rw [h]
      exact ⟨hg.1, hg.2⟩
    · rw [h]
      exact valid_apply hk
  | commitToPendingProposals d rng => exact valid_propose hg (nodup_apply hg.1 rfl)
  | leaveGroup d rng => exact hg
  | selfUpdate d rng => exact valid_propose hg (nodup_apply hg.1 rfl)

theorem has_inner (c : GroupCall idealMls) (hc : c.Inner) (h : roster.Has (c.run p g).2 l) : roster.Has g l := by
  have hpropose : ∀ {α : Type} {a : α} {k : Commit}, k.adds = [] → roster.Has (propose p g k a).2.2 l →
      roster.Has g l := by
    intro α a k hk h
    rcases has_propose h with h | ⟨d, hd, -⟩
    · exact h
    · simp [hk] at hd
  cases c with
  | addMembers d rng kp => exact hc.elim
  | removeMembers d rng i => exact hpropose rfl h
  | mergePendingCommit =>
    cases hp : g.pending with
    | none => simpa only [GroupCall.run, idealMls, hp] using h
    | some k =>
      simp only [GroupCall.run, idealMls, hp, commitTo] at h
      rcases has_apply h with h | ⟨d, hd, rfl⟩
      · exact h
      · exact has_iff.2 (Or.inr ⟨k, hp, d, hd, rfl⟩)
  | clearPendingCommit =>
    rcases has_iff.1 h with h | ⟨k, hk, -⟩
    · exact has_iff.2 (Or.inl h)
    · cases hk
  | createMessage d rng b =>
    simp only [GroupCall.run, idealMls] at h
    split_ifs at h
    · exact h
    · exact h
  | receive m => exact hc.elim
  | commitToPendingProposals d rng => exact hpropose rfl h
  | leaveGroup d rng => exact h
  | selfUpdate d rng => exact hpropose rfl h

/-- What is left after a removal was there before, at another place. -/
theorem roster_removed {i j : ℕ} {k : Commit} (hk : k.adds = [])
    (hr : k.removes = ([i] : List ℕ).filterMap fun i => g.members[i]?) (h : (j, l) ∈ roster.roster (g.apply k)) :
    ∃ j', j' ≠ i ∧ (j', l) ∈ roster.roster g := by
  obtain ⟨x, hx, heq⟩ := List.mem_map.1 h
  obtain ⟨-, rfl⟩ := Prod.mk.inj heq
  have hmem : x.1 ∈ (g.members.filter fun d => d ∉ k.removes) ++ k.adds := List.fst_mem_of_mem_zipIdx hx
  rw [hk, List.append_nil, List.mem_filter] at hmem
  obtain ⟨j', hj', hget⟩ := List.mem_iff_getElem.1 hmem.1
  have hget' : g.members[j']? = some x.1 := by rw [List.getElem?_eq_getElem hj', hget]
  refine ⟨j', ?_, List.mem_map.2 ⟨(x.1, j'), List.mk_mem_zipIdx_iff_getElem?.2 hget', rfl⟩⟩
  rintro rfl
  have hin : x.1 ∈ k.removes := by simp [hr, hget']
  simp [hin] at hmem

def rosterLaws : RosterLaws idealMls where
  toRoster := roster
  Valid := ValidGroup
  members g := by
    simp only [idealMls, roster, List.map_map]
    rfl
  keys := by
    intro g hg
    have hkeys : (roster.roster g).map (·.2.key) = g.members := by
      simp only [roster, List.map_map]
      exact List.zipIdx_map_fst 0 g.members
    rw [hkeys]
    exact hg.1
  new := by
    intro d id rng p g p' h
    simp only [idealMls] at h
    split_ifs at h
    · cases h
    · cases h
      refine ⟨⟨by simp, fun _ h => by cases h⟩, fun l hl => ?_⟩
      rcases has_iff.1 hl with ⟨x, hx, rfl⟩ | ⟨k, hk, -⟩
      · rw [List.mem_singleton.1 hx]
        rfl
      · cases hk
  welcomes := by
    rintro m g ⟨w, staged, p, p₁, p₂, -, -, hi⟩
    simp only [idealMls] at hi
    split_ifs at hi with hin hn
    · cases hi
    · cases hi
      exact ⟨hn, fun _ h => by cases h⟩
    · cases hi
  valid := valid_run
  inner := has_inner
  add := by
    intro d rng kp p g l h
    simp only [idealMls] at h
    split_ifs at h
    · rcases has_propose h with h | ⟨x, hx, rfl⟩
      · exact Or.inl h
      · rw [List.mem_singleton.1 hx]
        exact Or.inr rfl
    · exact Or.inl h
  add_ok := by
    intro d rng kp p g c w p' g' h
    simp only [idealMls] at h
    split_ifs at h
    · obtain ⟨-, rfl⟩ := propose_ok h
      refine ⟨_, rfl, fun l => ⟨?_, ?_⟩⟩
      · intro hl
        exact Or.inl (List.mem_singleton.1 hl)
      · rintro (rfl | ⟨q, -, hq⟩)
        · exact List.mem_singleton.2 rfl
        · cases hq
    · cases h
  add_error := by
    intro d rng kp p g e p' g' h
    simp only [idealMls] at h
    split_ifs at h
    · obtain rfl := propose_error h
      rfl
    · cases h
      rfl
  process := fun h => h
  propose := by
    intro (q : Did) p (g : GroupState) l h
    have h' : roster.Has { g with proposals := g.proposals ++ [q] } l := h
    have hleaves := has_iff.1 h'
    exact Or.inl (has_iff.2 hleaves)
  staged := by
    intro c p g l h
    rcases has_apply h with h | ⟨d, hd, rfl⟩
    · exact Or.inl h
    · exact Or.inr (List.mem_map.2 ⟨d, hd, rfl⟩)
  remove := by
    intro d rng i p g c p₁ g₁ p₂ g₂ j l hr hm hl
    obtain ⟨-, rfl⟩ := propose_ok hr
    have hg₂ : g₂ = _ := (congrArg (fun x => x.2.2) hm).symm
    subst hg₂
    exact Or.inl (roster_removed rfl rfl hl)

end IdealMls
end Variance
