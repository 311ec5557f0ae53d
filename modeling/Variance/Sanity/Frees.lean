import Variance.Sanity.InviteSteps

/-! What the inviter's steps other than an invite can do to the slots and the records: empty and
delete them. `Frees P` also says for which groups. -/

namespace Variance

open MlsGroupHandler LocalMessageStorage

section Handler
variable {M : OpenMls} {h : MlsGroupHandler M} {gid g : String}

theorem slot_congr {h' : MlsGroupHandler M} (hg : h'.groups = h.groups) : h'.slot g = h.slot g := by
  rw [slot, hg, slot]

theorem slot_encryptMessage (S : CommitSlot M) (h : MlsGroupHandler M) (gid g : String) (b : Bytes)
    (rng : ℕ) :
    (h.encryptMessage gid b rng).2.slot g = h.slot g :=
  slot_withGroup fun p x => (S.create _ _ _ p x).1

/-- An operation that at most drops the pending commit drops at most its own group's. -/
theorem slot_withGroup_drop {α : Type} (h : MlsGroupHandler M) (gid g : String)
    (wrap : String → MsgError) {op : M.GroupOp α}
    (hop : ∀ p x, M.pendingCommit (op p x).2.2 = none ∨
      M.pendingCommit (op p x).2.2 = M.pendingCommit x) :
    (h.withGroup gid wrap op).2.slot g = h.slot g ∨
      g = gid ∧ (h.withGroup gid wrap op).2.slot g = none := by
  by_cases hne : g = gid
  · subst hne
    cases hg : h.groups[g]? with
    | none => exact Or.inl (by simp [withGroup, slot, hg])
    | some x =>
      rcases hop h.provider x with hx | hx
      · exact Or.inr ⟨rfl, by simp [slot, withGroup_get hg, hx]⟩
      · exact Or.inl (by simp [slot, withGroup_get hg, hg, hx])
  · exact Or.inl (by rw [slot, withGroup_other hne, slot])

/-- A message processed drops the pending commit only by merging another's. -/
theorem slot_processMessage (S : CommitSlot M) (h : MlsGroupHandler M) (gid g : String) (m : M.Message) :
    (h.processMessage gid m).2.slot g = h.slot g ∨
      g = gid ∧ (h.processMessage gid m).2.slot g = none := by
  unfold processMessage
  split
  · exact Or.inl rfl
  split
  · exact Or.inl rfl
  rename_i pm _
  have hproc : (h.withGroup gid (fun e => .decryption ("MLS process_message failed: " ++ e))
      (M.processMessage pm)).2.slot g = h.slot g := slot_withGroup fun p x => (S.process pm p x).1
  split
  · rename_i heq
    rw [heq] at hproc
    exact Or.inl hproc
  · rename_i heq
    rw [heq] at hproc
    exact Or.inl hproc
  · rename_i q h' heq
    rw [heq] at hproc
    refine Or.inl (Eq.trans ?_ hproc)
    exact slot_withGroup fun p x => (S.propose q p x).1
  · rename_i c h' heq
    rw [heq] at hproc
    have hmerge := slot_withGroup_drop h' gid g
      (fun e => MsgError.mlsCommit ("Failed to merge staged commit: " ++ e)) (S.staged c)
    rcases hmerge with hm | hm
    · exact Or.inl (hm.trans hproc)
    · exact Or.inr hm
  · rename_i heq
    rw [heq] at hproc
    exact Or.inl hproc

/-- Committing the stored proposals leaves the slot empty when it succeeds. -/
theorem slot_commitPendingProposals (S : CommitSlot M) (h : MlsGroupHandler M) (gid g : String) (rng : ℕ) :
    (h.commitPendingProposals gid rng).2.slot g = h.slot g ∨
      g = gid ∧ (h.commitPendingProposals gid rng).2.slot g = none := by
  unfold commitPendingProposals
  cases hg : h.groups[gid]? with
  | none => exact Or.inl rfl
  | some x =>
    dsimp only
    split_ifs
    · exact Or.inl rfl
    rw [withGroup_some hg]
    rcases hc : M.commitToPendingProposals h.localDid rng h.provider x with ⟨⟨e⟩ | ⟨c⟩, p', x'⟩
    · refine Or.inl ?_
      by_cases hne : g = gid
      · subst hne
        simp [slot, hg, Except.mapError, S.proposals_error hc]
      · simp [slot, Except.mapError, Ne.symm hne]
    · obtain ⟨k, hk⟩ := S.proposals_ok hc
      obtain ⟨p'', x'', hm, hx'', -⟩ := S.merge (p := p') hk
      by_cases hne : g = gid
      · subst hne
        exact Or.inr ⟨rfl, by simp [slot, Except.mapError, withGroup, hm, hx'']⟩
      · exact Or.inl (by simp [slot, Except.mapError, withGroup, hm, Ne.symm hne])

theorem slot_recordProcessingSuccess : (h.recordProcessingSuccess gid).slot g = h.slot g := by
  refine slot_congr ?_
  unfold recordProcessingSuccess
  split <;> rfl

theorem slot_removeGroup_drop :
    (h.removeGroup gid).slot g = h.slot g ∨ g = gid ∧ (h.removeGroup gid).slot g = none := by
  by_cases hne : g = gid
  · subst hne
    exact Or.inr ⟨rfl, slot_removeGroup⟩
  · exact Or.inl (by rw [slot, removeGroup_other hne, slot])

end Handler

namespace Node
variable {M : OpenMls} {n n₁ n₂ : Node M} {W : Wire} {env : Env} {g : String} {P : String → Prop}

structure Frees (P : String → Prop) (n n' : Node M) : Prop where
  slot : ∀ g, n'.mls.slot g = n.mls.slot g ∨ P g ∧ n'.mls.slot g = none
  invites : ∀ (k : String) (e : OutboundInvite),
    n'.storage.outboundInvites[k]? = some e → n.storage.outboundInvites[k]? = some e

theorem Frees.refl (P : String → Prop) (n : Node M) : Frees P n n :=
  ⟨fun _ => Or.inl rfl, fun _ _ he => he⟩

theorem Frees.trans (h₁ : Frees P n n₁) (h₂ : Frees P n₁ n₂) : Frees P n n₂ := by
  refine ⟨fun g => ?_, fun k e he => h₁.invites k e (h₂.invites k e he)⟩
  rcases h₂.slot g with h | h
  · rcases h₁.slot g with h' | ⟨hp, h'⟩
    · exact Or.inl (h.trans h')
    · exact Or.inr ⟨hp, h.trans h'⟩
  · exact Or.inr h

theorem Frees.mono {Q : String → Prop} (h : Frees P n n₁) (hQ : ∀ g, P g → Q g) : Frees Q n n₁ :=
  ⟨fun g => (h.slot g).imp_right fun h => ⟨hQ g h.1, h.2⟩, h.invites⟩

/-- A step that keeps the slots and the records frees nothing. -/
theorem Frees.of_eq (hs : ∀ g, n₁.mls.slot g = n.mls.slot g)
    (hi : n₁.storage.outboundInvites = n.storage.outboundInvites) : Frees P n n₁ :=
  ⟨fun g => Or.inl (hs g), fun k e he => by rwa [hi] at he⟩

theorem frees_mls {h' : MlsGroupHandler M}
    (hs : ∀ g, h'.slot g = n.mls.slot g ∨ P g ∧ h'.slot g = none) : Frees P n { n with mls := h' } :=
  ⟨hs, fun _ _ he => he⟩

theorem frees_refreshKeyPackage {b : Bool} : Frees P n (n.refreshKeyPackage env b) :=
  .of_eq (fun _ => slot_congr refreshKeyPackage_groups) (by rw [refreshKeyPackage_storage])

theorem frees_accepted (S : CommitSlot M) {d : Did} :
    Frees (· = g) n (n.handleInviteAcceptedDm env g d) := by
  cases hs : n.mls.slot g with
  | none => rw [handleInviteAcceptedDm_none hs]; exact .refl _ _
  | some c =>
    obtain ⟨hm, hi⟩ := handleInviteAcceptedDm_some env d S hs
    obtain ⟨x, hx, hxc⟩ := slot_eq_some.1 hs
    obtain ⟨p', x', hok, hx', -⟩ := confirmAddMember_some S hx hxc
    refine ⟨fun g' => ?_, fun k e he => ?_⟩
    · by_cases hne : g' = g
      · subst hne
        exact Or.inr ⟨rfl, by simp [hm, hok, MlsGroupHandler.slot, hx']⟩
      · exact Or.inl (by rw [hm, MlsGroupHandler.slot, confirmAddMember_other hne, MlsGroupHandler.slot])
    · rw [hi] at he
      exact get_treeRemove_some he

/-- What an acceptance takes out of the slot, it merges. -/
theorem applied_accepted (S : CommitSlot M) (env : Env) (d : Did) {x : M.Group} {c : M.Commit}
    (hx : n.mls.groups[g]? = some x) (hc : M.pendingCommit x = some c) :
    ((n.handleInviteAcceptedDm env g d).mls.groups[g]?).map S.applied = some (S.applied x ++ [c]) := by
  obtain ⟨hm, -⟩ := handleInviteAcceptedDm_some env d S (slot_eq_some.2 ⟨x, hx, hc⟩)
  obtain ⟨p', x', hok, -, ha⟩ := confirmAddMember_some S hx hc
  simp [hm, hok, ha]

/-- A decline and an expiry both cancel, then delete a record. -/
theorem frees_cancel (S : CommitSlot M) {n' : Node M} (hp : P g)
    (hm : n'.mls = (n.mls.cancelAddMember g).2) {k : String}
    (hi : n'.storage.outboundInvites =
      (treeRemove env.faults "outbound_invites" k n.storage.outboundInvites).2) : Frees P n n' := by
  refine ⟨fun g' => ?_, fun k e he => ?_⟩
  · by_cases hne : g' = g
    · subst hne
      exact Or.inr ⟨hp, by rw [hm]; exact slot_cancelAddMember S⟩
    · exact Or.inl (by rw [hm]; exact slot_cancelAddMember_other hne)
  · rw [hi] at he
    exact get_treeRemove_some he

/-- A direct message frees at most the slot of the group that the answer it carries names. -/
theorem frees_handleDirectContent (S : CommitSlot M) {d : Did} {mid : String} {ts : ℤ}
    {content : MessageContent} : Frees
      (fun g => content.metadata["group_id"]? = some g ∧
        (content.metadata["type"]? = some "mls_invite_accepted" ∨
          content.metadata["type"]? = some "mls_invite_declined"))
      n (n.handleDirectContent W env d mid ts content) := by
  have hforget {P : String → Prop} {n' : Node M} {x : Did} (h : Frees P n n') :
      Frees P n (n'.store fun s => s.deleteDirectById env.faults d x ts mid) :=
    h.trans (.of_eq (fun _ => rfl) deleteDirectById_invites)
  unfold handleDirectContent
  dsimp only
  split
  · refine hforget ?_
    split
    · exact .of_eq (fun _ => by rw [handleGroupInvitationDm_mls]) handleGroupInvitationDm_storage.1
    · exact .refl _ _
  · rename_i ht
    refine hforget ?_
    split
    · rename_i hg
      exact (frees_accepted S).mono fun g' h => ⟨h ▸ hg, Or.inl ht⟩
    · exact .refl _ _
  · rename_i ht
    refine hforget ?_
    split
    · rename_i hg
      exact frees_cancel S ⟨hg, Or.inr ht⟩ rfl rfl
    · exact .refl _ _
  · exact .of_eq (fun _ => rfl) rfl

theorem frees_foldl_expireInvite (S : CommitSlot M) (env : Env) (xs : List (String × Did × GroupInvitation)) :
    ∀ n : Node M, (∀ x ∈ xs, P x.1) → Frees P n (xs.foldl (expireInvite env) n) := by
  induction xs with
  | nil => intro n _; exact .refl _ _
  | cons x xs ih =>
    intro n hx
    have hone : Frees P n (expireInvite env n x) := frees_cancel S (hx x (by simp)) rfl rfl
    exact hone.trans (ih _ fun y hy => hx y (by simp [hy]))

theorem frees_sweep (S : CommitSlot M) : Frees
    (fun g => ∃ x ∈ n.storage.fetchExpiredOutboundInvites inviteTimeoutMs env.now, x.1 = g)
    n (n.sweepExpiredInvites env) := by
  have hall : Frees (fun g => ∃ x ∈ n.storage.fetchExpiredOutboundInvites inviteTimeoutMs env.now, x.1 = g)
      n ((n.storage.fetchExpiredOutboundInvites inviteTimeoutMs env.now).foldl (expireInvite env) n) :=
    frees_foldl_expireInvite S env _ n fun x hx => ⟨x, hx, rfl⟩
  unfold sweepExpiredInvites
  dsimp only
  split_ifs
  · exact hall
  · exact hall.trans (.of_eq (fun _ => rfl) rfl)

/-! Group messages -/

theorem frees_publishGroupReceipt (S : CommitSlot M) {r : GroupReadReceipt} :
    Frees P n (n.publishGroupReceiptFromEventRouter W env g r) := by
  have hs (g' : String) := slot_encryptMessage S n.mls g g' (W.encodeGroupPayload (.receipt r)) env.rng
  unfold publishGroupReceiptFromEventRouter
  split
  · rename_i heq
    exact frees_mls fun g' => Or.inl (by simpa [heq] using hs g')
  · rename_i heq
    refine (frees_mls fun g' => Or.inl (by simpa [heq] using hs g')).trans ?_
    dsimp only
    split <;> exact .of_eq (fun _ => rfl) rfl

theorem frees_storeGroupContent (S : CommitSlot M) {m : GroupMessage} {content : MessageContent} :
    Frees P n (n.storeGroupContent W env m content) := by
  unfold storeGroupContent
  dsimp only
  split_ifs
  · exact .of_eq (fun _ => rfl) rfl
  · unfold sendGroupDelivered
    split
    · rename_i heq
      rw [← (Prod.mk.inj heq).2]
      exact .of_eq (fun _ => rfl) rfl
    · rename_i heq
      rw [← (Prod.mk.inj heq).2]
      refine Frees.trans ?_ (frees_publishGroupReceipt S)
      exact .of_eq (fun _ => rfl) rfl

theorem frees_handleGroupMessageContent (S : CommitSlot M) {m : GroupMessage}
    {content : MessageContent} : Frees P n (n.handleGroupMessageContent W env m content) := by
  unfold handleGroupMessageContent
  split
  · unfold freezeGroup
    split <;> exact .of_eq (fun _ => rfl) rfl
  · split
    · refine .of_eq (fun _ => rfl) ?_
      simp only [emit_storage, updateMemberRole]
      split
      · rfl
      · split_ifs <;> rfl
    · exact .refl _ _
  · exact frees_storeGroupContent S

theorem frees_handleGroupPlaintext (S : CommitSlot M) {m : GroupMessage} {b : Bytes} :
    Frees P n (n.handleGroupPlaintext W env m b) := by
  unfold handleGroupPlaintext
  split
  · rename_i r _
    unfold handleGroupReceipt
    by_cases hr : r.readerDid = n.localDid
    · rw [if_pos hr]
      exact .refl _ _
    · rw [if_neg hr]
      split
      · exact .refl _ _
      · rename_i heq
        refine .of_eq (fun _ => rfl) ?_
        rw [emit_storage, ← (Prod.mk.inj heq).2]
  · exact frees_handleGroupMessageContent S
  · split
    · exact frees_handleGroupMessageContent S
    · exact .refl _ _

theorem frees_cleanUpAfterRemoval : Frees (· = g) n (n.cleanUpAfterRemoval env g) := by
  unfold cleanUpAfterRemoval
  dsimp only
  refine Frees.trans ?_ frees_refreshKeyPackage
  refine ⟨fun g' => slot_removeGroup_drop, fun k e he => ?_⟩
  simp only [emit_storage, store_storage] at he
  have := get_treeRemoveAll_some he
  simpa [deleteGroupLastReadAt, deleteGroupMetadata, deleteGroupMessages_invites] using this

theorem frees_settleMembers {before after : List Did} :
    Frees (· = g) n (n.settleMembers env g before after) := by
  unfold settleMembers
  split_ifs
  · have hfold : ∀ (xs : List Did) (n : Node M), Frees (· = g) n
        (xs.foldl (fun n did => n.emit (.ws (.groupMemberRemoved g did))) n) := by
      intro xs
      induction xs with
      | nil => intro n; exact .refl _ _
      | cons x xs ih =>
        intro n
        have hone : Frees (· = g) n (n.emit (.ws (.groupMemberRemoved g x))) := .of_eq (fun _ => rfl) rfl
        exact hone.trans (ih _)
    exact hfold _ n
  · exact frees_cleanUpAfterRemoval

theorem frees_autoCommitProposals (S : CommitSlot M) {after : List Did} :
    Frees (· = g) n (n.autoCommitProposals env g after).2 := by
  have hs (g' : String) := slot_commitPendingProposals S n.mls g g' env.rng
  unfold autoCommitProposals
  split
  · rename_i heq
    exact frees_mls fun g' => by simpa [heq] using hs g'
  · rename_i heq
    exact frees_mls fun g' => by simpa [heq] using hs g'
  · rename_i heq
    refine (frees_mls fun g' => by simpa [heq] using hs g').trans ?_
    dsimp only
    split <;> exact .of_eq (fun _ => rfl) rfl

theorem frees_afterHandshake (S : CommitSlot M) {before : List Did} :
    Frees (· = g) n (n.afterHandshake env g before) := by
  unfold afterHandshake
  dsimp only
  have hemit : Frees (· = g) n (n.emit .schedulePersist) := .of_eq (fun _ => rfl) rfl
  split_ifs
  · exact (hemit.trans (frees_autoCommitProposals S)).trans frees_settleMembers
  · exact hemit.trans frees_settleMembers

theorem frees_recordLiveFailure : Frees P n (n.recordLiveFailure g) := by
  unfold recordLiveFailure
  split
  all_goals
    rename_i heq
    refine .of_eq (fun _ => slot_congr ?_) rfl
    exact (congrArg (fun x => x.2.groups) heq).symm

/-- A group message frees at most the slot of the group it names. -/
theorem frees_handleGroupMessage (S : CommitSlot M) {m : GroupMessage} :
    Frees (· = m.groupId) n (n.handleGroupMessage W env m) := by
  unfold handleGroupMessage
  split_ifs
  · exact .refl _ _
  dsimp only
  split
  · exact frees_recordLiveFailure
  rename_i mlsMsg _
  have hs (g' : String) := slot_processMessage S n.mls m.groupId g' mlsMsg
  split
  · rename_i heq
    exact (frees_mls fun g' => by simpa [heq] using hs g').trans frees_recordLiveFailure
  · rename_i heq
    refine (frees_mls fun g' => ?_).trans (.trans (frees_handleGroupPlaintext S) (.of_eq (fun _ => rfl) rfl))
    rw [slot_recordProcessingSuccess]
    simpa [heq] using hs g'
  · rename_i heq
    refine (frees_mls fun g' => ?_).trans (frees_afterHandshake S)
    rw [slot_recordProcessingSuccess]
    simpa [heq] using hs g'

end Node
end Variance
