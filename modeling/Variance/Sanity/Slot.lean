import Variance.Spec.Mls

/-! What the handler's operations do to the slots, under the laws of `CommitSlot`. -/

namespace Variance

variable {M : OpenMls}

namespace MlsGroupHandler
variable {h : MlsGroupHandler M} {gid gid' : String}

theorem slot_eq_some {k : M.Commit} :
    h.slot gid = some k ↔ ∃ g, h.groups[gid]? = some g ∧ M.pendingCommit g = some k := by
  simp [slot, Option.bind_eq_some_iff]

/-- An operation on one group leaves the others alone. -/
theorem withGroup_other {α : Type} {wrap : String → MsgError} {op : M.GroupOp α} (hne : gid' ≠ gid) :
    (h.withGroup gid wrap op).2.groups[gid']? = h.groups[gid']? := by
  unfold withGroup
  cases h.groups[gid]? with
  | none => rfl
  | some g => simp [Ne.symm hne]

theorem withGroup_some {α : Type} {wrap : String → MsgError} {op : M.GroupOp α} {g : M.Group}
    (hg : h.groups[gid]? = some g) :
    h.withGroup gid wrap op = (((op h.provider g).1).mapError wrap,
      { h with provider := (op h.provider g).2.1,
               groups := h.groups.insert gid (op h.provider g).2.2 }) := by
  simp [withGroup, hg]

theorem withGroup_get {α : Type} {wrap : String → MsgError} {op : M.GroupOp α} {g : M.Group}
    (hg : h.groups[gid]? = some g) :
    (h.withGroup gid wrap op).2.groups[gid]? = some (op h.provider g).2.2 := by
  simp [withGroup_some hg]

/-- What each operation that names a group leaves of the other groups. -/
theorem addMemberDeferred_other {kp : M.KeyPackage} {rng : ℕ} (hne : gid' ≠ gid) :
    (h.addMemberDeferred gid kp rng).2.groups[gid']? = h.groups[gid']? := by
  unfold addMemberDeferred
  cases h.groups[gid]? with
  | none => rfl
  | some g =>
    simp only
    split_ifs
    · rfl
    · exact withGroup_other hne

theorem confirmAddMember_other (hne : gid' ≠ gid) :
    (h.confirmAddMember gid).2.groups[gid']? = h.groups[gid']? := by
  unfold confirmAddMember
  cases h.groups[gid]? with
  | none => rfl
  | some g =>
    simp only
    split_ifs
    · rfl
    · exact withGroup_other hne

theorem cancelAddMember_other (hne : gid' ≠ gid) :
    (h.cancelAddMember gid).2.groups[gid']? = h.groups[gid']? := by
  unfold cancelAddMember
  cases h.groups[gid]? with
  | none => rfl
  | some g =>
    simp only
    split_ifs
    · rfl
    · exact withGroup_other hne

/-- Nothing to confirm: nothing happens. -/
theorem confirmAddMember_none (hs : h.slot gid = none) :
    ∃ e, h.confirmAddMember gid = (.error e, h) := by
  unfold confirmAddMember
  cases hg : h.groups[gid]? with
  | none => exact ⟨_, rfl⟩
  | some g =>
    have : M.pendingCommit g = none := by simpa [slot, hg] using hs
    exact ⟨.mlsNoPendingCommit gid, by simp [this]⟩

theorem cancelAddMember_none (hs : h.slot gid = none) :
    ∃ e, h.cancelAddMember gid = (.error e, h) := by
  unfold cancelAddMember
  cases hg : h.groups[gid]? with
  | none => exact ⟨_, rfl⟩
  | some g =>
    have : M.pendingCommit g = none := by simpa [slot, hg] using hs
    exact ⟨.mlsNoPendingCommit gid, by simp [this]⟩

variable (S : CommitSlot M)

/-- Confirming merges exactly the commit in the slot. -/
theorem confirmAddMember_some {g : M.Group} {k : M.Commit} (hg : h.groups[gid]? = some g)
    (hk : M.pendingCommit g = some k) : ∃ p' g', h.confirmAddMember gid =
      (.ok (), { h with provider := p', groups := h.groups.insert gid g' }) ∧
      M.pendingCommit g' = none ∧ S.applied g' = S.applied g ++ [k] := by
  obtain ⟨p', g', hm, hp, ha⟩ := S.merge (p := h.provider) hk
  refine ⟨p', g', ?_, hp, ha⟩
  simp [confirmAddMember, hg, hk, withGroup, hm, Except.mapError]

/-- Cancelling drops exactly the commit in the slot. -/
theorem cancelAddMember_some {g : M.Group} {k : M.Commit} (hg : h.groups[gid]? = some g)
    (hk : M.pendingCommit g = some k) : ∃ p' g', h.cancelAddMember gid =
      (.ok (), { h with provider := p', groups := h.groups.insert gid g' }) ∧
      M.pendingCommit g' = none ∧ S.applied g' = S.applied g := by
  obtain ⟨p', g', hm, hp, ha⟩ := S.clear (p := h.provider) hk
  refine ⟨p', g', ?_, hp, ha⟩
  simp [cancelAddMember, hg, hk, withGroup, hm, Except.mapError]

include S in
theorem slot_cancelAddMember : (h.cancelAddMember gid).2.slot gid = none := by
  cases hs : h.slot gid with
  | none =>
    obtain ⟨e, he⟩ := cancelAddMember_none hs
    rw [he]; exact hs
  | some k =>
    obtain ⟨g, hg, hk⟩ := slot_eq_some.1 hs
    obtain ⟨p', g', he, hp, -⟩ := cancelAddMember_some S hg hk
    simp [he, slot, hp]

theorem slot_cancelAddMember_other (hne : gid' ≠ gid) :
    (h.cancelAddMember gid).2.slot gid' = h.slot gid' := by
  rw [slot, cancelAddMember_other hne, slot]

/-- A group operation that leaves the pending commit alone leaves every slot alone. -/
theorem slot_withGroup {α : Type} {wrap : String → MsgError} {op : M.GroupOp α}
    (hop : ∀ p g, M.pendingCommit (op p g).2.2 = M.pendingCommit g) :
    (h.withGroup gid wrap op).2.slot gid' = h.slot gid' := by
  by_cases hne : gid' = gid
  · subst hne
    cases hg : h.groups[gid']? with
    | none => simp [withGroup, slot, hg]
    | some g => simp [slot, withGroup_get hg, hg, hop]
  · rw [slot, withGroup_other hne, slot]

include S in
theorem slot_leaveGroup (h : MlsGroupHandler M) (gid gid' : String) (rng : ℕ) :
    (h.leaveGroup gid rng).2.slot gid' = h.slot gid' :=
  slot_withGroup fun p g => (S.leave _ _ p g).1

theorem slot_removeGroup : (h.removeGroup gid).slot gid = none := by
  unfold removeGroup
  cases hg : h.groups[gid]? with
  | none => simp [slot, hg]
  | some g => simp [slot]

theorem removeGroup_other (hne : gid' ≠ gid) : (h.removeGroup gid).groups[gid']? = h.groups[gid']? := by
  unfold removeGroup
  cases h.groups[gid]? with
  | none => rfl
  | some g => simp [Ne.symm hne]

/-- A deferred add that succeeds found the slot empty and leaves its own commit there. -/
theorem addMemberDeferred_ok {kp : M.KeyPackage} {rng : ℕ} {r : AddMemberResult M}
    {h' : MlsGroupHandler M} (he : h.addMemberDeferred gid kp rng = (.ok r, h')) :
    h.slot gid = none ∧ ∃ k, h'.slot gid = some k ∧ S.commitOf r.commit = some k ∧
      S.commitOf r.welcome = some k := by
  unfold addMemberDeferred at he
  cases hg : h.groups[gid]? with
  | none => simp [hg] at he
  | some g =>
    simp only [hg] at he
    split_ifs at he with hp
    · simp at he
    rw [withGroup_some hg] at he
    rcases hadd : M.addMembers h.localDid rng [kp] h.provider g with ⟨⟨e⟩ | ⟨c, w⟩, p', g'⟩
    · simp [hadd, Except.mapError, Except.map] at he
    · obtain ⟨-, k, hk, hc, hw⟩ := S.add_ok hadd
      simp only [hadd, Except.mapError, Except.map, Prod.mk.injEq, Except.ok.injEq] at he
      obtain ⟨rfl, rfl⟩ := he
      exact ⟨by simpa [slot, hg] using hp, k, by simp [slot, hk], hc, hw⟩

include S in
/-- A deferred add that fails leaves the slots as they were. -/
theorem addMemberDeferred_error {kp : M.KeyPackage} {rng : ℕ} {e : MsgError} {h' : MlsGroupHandler M}
    (he : h.addMemberDeferred gid kp rng = (.error e, h')) : h'.slot gid' = h.slot gid' := by
  by_cases hne : gid' = gid
  swap
  · have hother := congrArg (fun x => x.2.groups[gid']?) he
    simp only [addMemberDeferred_other hne] at hother
    rw [slot, slot, hother]
  subst hne
  unfold addMemberDeferred at he
  cases hg : h.groups[gid']? with
  | none => simp only [hg, Prod.mk.injEq] at he; rw [← he.2]
  | some g =>
    simp only [hg] at he
    split_ifs at he with hp
    · rw [← (Prod.mk.inj he).2]
    rw [withGroup_some hg] at he
    rcases hadd : M.addMembers h.localDid rng [kp] h.provider g with ⟨⟨e'⟩ | ⟨c, w⟩, p', g'⟩
    · simp only [hadd, Except.mapError, Except.map, Prod.mk.injEq] at he
      rw [← he.2]
      simp [slot, hg, (S.add_error hadd).2]
    · simp [hadd, Except.mapError, Except.map] at he

end MlsGroupHandler
end Variance
