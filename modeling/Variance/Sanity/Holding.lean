import Variance.Sanity.Calls
import Variance.Spec.Clients

/-! A step keeps every group that it does not leave: the id of a group goes from memory only with the unsubscription
from its topic, or in a reinitialisation. -/

namespace Variance

namespace MlsGroupHandler
variable {M : OpenMls} {h h' h'' : MlsGroupHandler M} {gid : String} {rng : ℕ}

/-- Every group of `h` is in `h'`. -/
def Keeps (h h' : MlsGroupHandler M) : Prop := ∀ gid ∈ h.groups, gid ∈ h'.groups

namespace Keeps

theorem refl (h : MlsGroupHandler M) : Keeps h h := fun _ hg => hg

theorem trans (h₁ : Keeps h h') (h₂ : Keeps h' h'') : Keeps h h'' := fun gid hg => h₂ gid (h₁ gid hg)

theorem of_eq (hg : h'.groups = h.groups) : Keeps h h' := fun gid hgid => by rwa [hg]

theorem of_insert {x : M.Group} (hg : h'.groups = h.groups.insert gid x) : Keeps h h' := by
  intro k hk
  rw [hg, Std.ExtTreeMap.mem_insert]
  exact Or.inr hk

/-- The handler that a match binds. -/
theorem bound {α : Type} {r : Except MsgError α × MlsGroupHandler M} {a : Except MsgError α} (hk : Keeps h r.2)
    (heq : r = (a, h')) : Keeps h h' := by
  rwa [heq] at hk

end Keeps

theorem keeps_withGroup {α : Type} (wrap : String → MsgError) (op : M.GroupOp α) :
    Keeps h (h.withGroup gid wrap op).2 := by
  cases hg : h.groups[gid]? with
  | none => exact .of_eq (by simp [withGroup, hg])
  | some g =>
    rw [withGroup_some hg]
    exact .of_insert rfl

/-- A second call on what the first left behind. -/
theorem keeps_then {α β : Type} {wrap wrap' : String → MsgError} {op : M.GroupOp α} {op' : M.GroupOp β}
    {a : Except MsgError α} (heq : h.withGroup gid wrap op = (a, h')) : Keeps h (h'.withGroup gid wrap' op').2 :=
  ((keeps_withGroup wrap op).bound heq).trans (keeps_withGroup wrap' op')

theorem keeps_createGroup (gid : String) (rng : ℕ) : Keeps h (h.createGroup gid rng).2 := by
  unfold createGroup
  split
  · exact .of_eq rfl
  · exact .of_insert rfl

theorem keeps_addMemberDeferred {kp : M.KeyPackage} : Keeps h (h.addMemberDeferred gid kp rng).2 := by
  unfold addMemberDeferred
  split
  · exact .refl h
  · split_ifs
    · exact .refl h
    · exact keeps_withGroup _ _

theorem keeps_addMember {kp : M.KeyPackage} : Keeps h (h.addMember gid kp rng).2 := by
  unfold addMember
  split
  · exact (keeps_withGroup _ _).bound ‹_›
  · exact keeps_then ‹_›

theorem keeps_confirmAddMember : Keeps h (h.confirmAddMember gid).2 := by
  unfold confirmAddMember
  split
  · exact .refl h
  · split_ifs
    · exact .refl h
    · exact keeps_withGroup _ _

theorem keeps_cancelAddMember : Keeps h (h.cancelAddMember gid).2 := by
  unfold cancelAddMember
  split
  · exact .refl h
  · split_ifs
    · exact .refl h
    · exact keeps_withGroup _ _

theorem keeps_removeMember {i : ℕ} : Keeps h (h.removeMember gid i rng).2 := by
  unfold removeMember
  split
  · exact (keeps_withGroup _ _).bound ‹_›
  · exact keeps_then ‹_›

theorem keeps_selfUpdate : Keeps h (h.selfUpdate gid rng).2 := by
  unfold selfUpdate
  split
  · exact (keeps_withGroup _ _).bound ‹_›
  · exact keeps_then ‹_›

theorem keeps_commitPendingProposals : Keeps h (h.commitPendingProposals gid rng).2 := by
  unfold commitPendingProposals
  split
  · exact .refl h
  · split_ifs
    · exact .refl h
    · split
      · exact (keeps_withGroup _ _).bound ‹_›
      · exact keeps_then ‹_›

theorem keeps_processMessage (gid : String) (m : M.Message) : Keeps h (h.processMessage gid m).2 := by
  obtain ⟨-, hsame | ⟨g, pm, -, -, hgs⟩⟩ := h.processMessage_groups gid m
  · exact .of_eq hsame
  · exact .of_insert hgs

theorem keeps_joinGroupFromWelcome {m : M.Message} : Keeps h (h.joinGroupFromWelcome m).2 := by
  unfold joinGroupFromWelcome
  split
  · exact .refl h
  split
  · exact .of_eq rfl
  split
  · exact .of_eq rfl
  · exact .of_insert rfl

theorem keeps_recordProcessingSuccess (gid : String) : Keeps h (h.recordProcessingSuccess gid) := by
  unfold recordProcessingSuccess
  split
  · exact .refl h
  · exact .of_eq rfl

theorem keeps_removeGroup {g : String} (hne : g ≠ gid) (hg : g ∈ h.groups) : g ∈ (h.removeGroup gid).groups := by
  rw [Std.ExtTreeMap.mem_iff_isSome_getElem?] at hg ⊢
  rwa [removeGroup_other hne]

theorem keeps_addAll {kps : SledTree M.KeyPackage} (ds : List Did) : Keeps h (addAll gid kps ds rng h).2 := by
  induction ds generalizing h rng with
  | nil => exact .refl h
  | cons d ds ih =>
    unfold addAll
    split_ifs
    · exact ih
    · split
      · exact ih
      · split
        · exact (keeps_addMember.bound ‹_›).trans ih
        · exact (keeps_addMember.bound ‹_›).trans ih

/-- A reinitialisation drops one group. -/
theorem keeps_reinitializeGroup {kps : SledTree M.KeyPackage} {g : String} (hne : g ≠ gid) (hg : g ∈ h.groups) :
    g ∈ (h.reinitializeGroup gid kps rng).2.groups := by
  have hremoved : g ∈ ((h.removeGroup gid).clearDesync gid).groups := by
    unfold clearDesync
    split
    · exact keeps_removeGroup hne hg
    · exact keeps_removeGroup hne hg
  unfold reinitializeGroup
  dsimp only
  split
  · exact (keeps_createGroup _ _).bound ‹_› g hremoved
  · exact ((keeps_createGroup _ _).bound ‹_›).trans (keeps_addAll _) g hremoved

end MlsGroupHandler

namespace Node
variable {M : OpenMls} {n n' n'' : Node M} {W : Wire} {env : Env} {gid g : String} {d : Did}

open MlsGroupHandler

/-- Effects were only added, and the group is still there unless we unsubscribed from its topic. -/
def StaysIn (gid : String) (n n' : Node M) : Prop := ∃ es, n'.effects = n.effects ++ es ∧
  (gid ∈ n.mls.groups → gid ∈ n'.mls.groups ∨ .unsubscribe (groupTopic gid) ∈ es)

namespace StaysIn

theorem refl (gid : String) (n : Node M) : StaysIn gid n n := ⟨[], by simp, Or.inl⟩

theorem congr (h : StaysIn gid n n') (he : n''.effects = n'.effects) (hk : Keeps n'.mls n''.mls) : StaysIn gid n n'' := by
  obtain ⟨es, hes, hg⟩ := h
  exact ⟨es, he.trans hes, fun hin => (hg hin).imp_left (hk gid)⟩

theorem emit (h : StaysIn gid n n') (x : Effect) : StaysIn gid n (n'.emit x) := by
  obtain ⟨es, hes, hg⟩ := h
  refine ⟨es ++ [x], by rw [emit_effects, hes, List.append_assoc], fun hin => ?_⟩
  exact (hg hin).imp_right (List.mem_append_left [x])

theorem mls (h : StaysIn gid n n') {mls : MlsGroupHandler M} (hk : Keeps n'.mls mls) :
    StaysIn gid n { n' with mls := mls } := h.congr rfl hk

theorem stored (h : StaysIn gid n n') (s : LocalMessageStorage) : StaysIn gid n { n' with storage := s } :=
  h.congr rfl (.refl _)

theorem store (h : StaysIn gid n n') {op : LocalMessageStorage → Except MsgError Unit × LocalMessageStorage} :
    StaysIn gid n (n'.store op) := h.congr rfl (.refl _)

/-- The unsubscription, then the group. -/
theorem leave (h : StaysIn gid n n') (g : String) :
    StaysIn gid n { (n'.emit (.unsubscribe (groupTopic g))) with mls := n'.mls.removeGroup g } := by
  obtain ⟨es, hes, hg⟩ := h
  refine ⟨es ++ [.unsubscribe (groupTopic g)], by simp [hes], fun hin => ?_⟩
  by_cases heq : gid = g
  · subst heq
    exact Or.inr (List.mem_append_right es (List.mem_singleton_self _))
  · exact (hg hin).imp (keeps_removeGroup heq) (List.mem_append_left _)

theorem refreshKeyPackage (h : StaysIn gid n n') {b : Bool} : StaysIn gid n (n'.refreshKeyPackage env b) := by
  have hk : Keeps n'.mls (n'.mls.generateKeyPackage env.rng).2 := .of_eq rfl
  unfold Node.refreshKeyPackage
  split
  · exact h.mls (hk.bound ‹_›)
  · have hmls := h.mls (hk.bound ‹_›)
    dsimp only
    split
    · exact hmls
    · split_ifs
      · exact (hmls.emit _).emit _
      · exact hmls.emit _

theorem purgeGroup (h : StaysIn gid n n') : StaysIn gid n (n'.purgeGroup env g) := h.store.store.store.store

theorem departGroup (h : StaysIn gid n n') : StaysIn gid n (n'.departGroup env g).2 := by
  unfold Node.departGroup
  split
  · exact h.mls ((keeps_withGroup _ _).bound ‹_›)
  · have hmls := h.mls ((keeps_withGroup _ _).bound ‹_›)
    dsimp only
    split
    · exact hmls
    · exact ((((hmls.emit _).leave g).emit .schedulePersist).purgeGroup).refreshKeyPackage

theorem sendGroupContent (h : StaysIn gid n n') {content : MessageContent} {keep : Bool} :
    StaysIn gid n (n'.sendGroupContent W env g content keep).2 := by
  unfold Node.sendGroupContent
  split
  · exact h.mls ((keeps_withGroup _ _).bound ‹_›)
  · have hmls := h.mls ((keeps_withGroup _ _).bound ‹_›)
    dsimp only
    split
    · exact hmls
    · split_ifs
      · exact ((hmls.emit _).store.store).emit _
      · exact (hmls.emit _).emit _

theorem mlsSendGroupMessage (h : StaysIn gid n n') {text : String} {replyTo : Option String} {md : SledTree String} :
    StaysIn gid n (n'.mlsSendGroupMessage W env g text replyTo md).2 := by
  unfold Node.mlsSendGroupMessage
  split_ifs
  · exact h
  · split
    · exact h
    · exact h.sendGroupContent

theorem wsSendGroupMessage (h : StaysIn gid n n') {text : String} {replyTo : Option String} :
    StaysIn gid n (n'.wsSendGroupMessage W env g text replyTo) := by
  unfold Node.wsSendGroupMessage
  dsimp only
  split
  · exact h.mls ((keeps_withGroup _ _).bound ‹_›)
  · have hmls := h.mls ((keeps_withGroup _ _).bound ‹_›)
    split
    · exact hmls
    · exact ((hmls.emit _).store.store).emit _

theorem mlsLeaveGroup (h : StaysIn gid n n') : StaysIn gid n (n'.mlsLeaveGroup env g).2 := by
  unfold Node.mlsLeaveGroup
  split_ifs
  · exact h
  · exact h.departGroup

theorem mlsAbandonGroup (h : StaysIn gid n n') : StaysIn gid n (n'.mlsAbandonGroup W env g).2 := by
  unfold Node.mlsAbandonGroup
  split
  · exact h
  · exact h.sendGroupContent.departGroup

theorem announceLeave (h : StaysIn gid n n') : StaysIn gid n (n'.announceLeave env g) := by
  unfold Node.announceLeave
  split
  · exact h.mls ((keeps_withGroup _ _).bound ‹_›)
  · have hmls := h.mls ((keeps_withGroup _ _).bound ‹_›)
    dsimp only
    split
    · exact hmls
    · exact hmls.emit _

theorem mlsDeleteGroup (h : StaysIn gid n n') : StaysIn gid n (n'.mlsDeleteGroup env g).2 := by
  unfold Node.mlsDeleteGroup
  split
  · exact h
  · exact ((h.announceLeave.leave g).emit .schedulePersist).purgeGroup

theorem mlsCreateGroup (h : StaysIn gid n n') {name : String} : StaysIn gid n (n'.mlsCreateGroup env name).2 := by
  unfold Node.mlsCreateGroup
  dsimp only
  split_ifs
  · exact h
  · split
    · exact h.mls ((keeps_createGroup _ _).bound ‹_›)
    · exact ((h.mls ((keeps_createGroup _ _).bound ‹_›)).emit .schedulePersist).store.emit _

theorem mlsInviteToGroup (h : StaysIn gid n n') {net : InviteNet} {invitee : String} :
    StaysIn gid n (n'.mlsInviteToGroup W env net g invitee).2 := by
  unfold Node.mlsInviteToGroup
  split
  · exact h
  · split
    · exact h.mls (keeps_addMemberDeferred.bound ‹_›)
    · have hmls := (h.mls (keeps_addMemberDeferred.bound ‹_›)).emit .schedulePersist
      unfold Node.sendInvitation
      split
      · exact hmls
      · split
        · exact hmls
        · dsimp only
          split_ifs
          · exact hmls.store.emit _
          · exact hmls.store

theorem answerInvitation (h : StaysIn gid n n') {i : GroupInvitation} {joined : String} :
    StaysIn gid n (n'.answerInvitation env i g joined) := by
  unfold Node.answerInvitation
  refine StaysIn.store ?_
  split_ifs
  · exact h.emit _
  · exact h

theorem acceptInvitation (h : StaysIn gid n n') : StaysIn gid n (n'.acceptInvitation env g).2 := by
  unfold Node.acceptInvitation
  split
  · exact h
  · split
    · exact h
    · split
      · exact h.mls (keeps_joinGroupFromWelcome.bound ‹_›)
      · have hmls := h.mls (keeps_joinGroupFromWelcome.bound ‹_›)
        exact (((hmls.emit .schedulePersist).store.emit _).refreshKeyPackage).answerInvitation

theorem declineInvitation (h : StaysIn gid n n') : StaysIn gid n (n'.declineInvitation env g).2 := by
  unfold Node.declineInvitation
  split
  · exact h
  · dsimp only
    split_ifs
    · exact (h.emit _).store
    · exact h.store

theorem mlsAcceptWelcome (h : StaysIn gid n n') {hex : String} : StaysIn gid n (n'.mlsAcceptWelcome W env hex).2 := by
  unfold Node.mlsAcceptWelcome
  split
  · exact h
  · split
    · exact h
    · split
      · exact h.mls (keeps_joinGroupFromWelcome.bound ‹_›)
      · have hmls := (h.mls (keeps_joinGroupFromWelcome.bound ‹_›)).emit .schedulePersist
        dsimp only
        split
        · exact hmls.emit _
        · exact hmls.store.emit _

theorem removeFromMetadata (h : StaysIn gid n n') (env : Env) (g : String) (d : Did) :
    StaysIn gid n (n'.removeFromMetadata env g d) := by
  unfold Node.removeFromMetadata
  split
  · exact h
  · exact h.store

theorem mlsRemoveMember (h : StaysIn gid n n') : StaysIn gid n (n'.mlsRemoveMember env g d).2 := by
  unfold Node.mlsRemoveMember
  split
  · exact h
  · split
    · exact h.mls (keeps_removeMember.bound ‹_›)
    · have hmls := ((h.mls (keeps_removeMember.bound ‹_›)).emit .schedulePersist).removeFromMetadata env g d
      dsimp only
      split
      · exact hmls
      · exact hmls.emit _

theorem mlsChangeMemberRole (h : StaysIn gid n n') {role : String} :
    StaysIn gid n (n'.mlsChangeMemberRole W env g d role).2 := by
  unfold Node.mlsChangeMemberRole
  split
  · exact h
  · split
    · exact h.stored _
    · exact h.stored _
    · exact (h.stored _).sendGroupContent

theorem publishGroupReceipt (h : StaysIn gid n n') {r : GroupReadReceipt} :
    StaysIn gid n (n'.publishGroupReceiptFromEventRouter W env g r) := by
  unfold Node.publishGroupReceiptFromEventRouter
  split
  · exact h.mls ((keeps_withGroup _ _).bound ‹_›)
  · have hmls := h.mls ((keeps_withGroup _ _).bound ‹_›)
    dsimp only
    split
    · exact hmls
    · exact (hmls.emit _).emit _

/-! Direct messages about a group -/

theorem publishInviteCommit (h : StaysIn gid n n') : StaysIn gid n (n'.publishInviteCommit env g d) := by
  unfold Node.publishInviteCommit
  split
  · exact h
  · split_ifs
    · exact h
    · exact h.emit _

theorem addToMetadata (h : StaysIn gid n n') : StaysIn gid n (n'.addToMetadata env g d) := by
  unfold Node.addToMetadata
  split
  · exact h
  · split_ifs
    · exact h
    · exact h.store

theorem handleInviteAcceptedDm (h : StaysIn gid n n') : StaysIn gid n (n'.handleInviteAcceptedDm env g d) := by
  unfold Node.handleInviteAcceptedDm
  split
  · exact h.mls (keeps_confirmAddMember.bound ‹_›)
  · have hmls := (h.mls (keeps_confirmAddMember.bound ‹_›)).emit .schedulePersist
    exact hmls.publishInviteCommit.addToMetadata.store.emit _

theorem cancelAddMember (h : StaysIn gid n n') : StaysIn gid n { n' with mls := (n'.mls.cancelAddMember g).2 } :=
  h.mls keeps_cancelAddMember

theorem handleInviteDeclinedDm (h : StaysIn gid n n') : StaysIn gid n (n'.handleInviteDeclinedDm env g d) :=
  ((h.cancelAddMember.emit .schedulePersist).store).emit _

theorem handleGroupInvitationDm (h : StaysIn gid n n') {hex : String} :
    StaysIn gid n (n'.handleGroupInvitationDm W env hex d).2 := by
  unfold Node.handleGroupInvitationDm
  split
  · exact h
  · split
    · exact h
    · split
      · exact h
      · exact (h.stored _).emit _

theorem handleDirectContent (h : StaysIn gid n n') {messageId : String} {timestamp : ℤ} {content : MessageContent} :
    StaysIn gid n (n'.handleDirectContent W env d messageId timestamp content) := by
  unfold Node.handleDirectContent
  dsimp only
  split
  · refine StaysIn.store ?_
    split
    · exact h.handleGroupInvitationDm
    · exact h
  · refine StaysIn.store ?_
    split
    · exact h.handleInviteAcceptedDm
    · exact h
  · refine StaysIn.store ?_
    split
    · exact h.handleInviteDeclinedDm
    · exact h
  · exact (h.emit _).emit _

theorem sweepExpiredInvites (h : StaysIn gid n n') : StaysIn gid n (n'.sweepExpiredInvites env) := by
  have hfold (l : List (String × Did × GroupInvitation)) : StaysIn gid n (l.foldl (expireInvite env) n') := by
    induction l generalizing n' with
    | nil => exact h
    | cons x l ih => exact ih (h.cancelAddMember.store.emit _)
  unfold Node.sweepExpiredInvites
  dsimp only
  split_ifs
  · exact hfold _
  · exact (hfold _).emit _

/-! Messages of the group -/

theorem storeGroupContent (h : StaysIn gid n n') {m : GroupMessage} {content : MessageContent} :
    StaysIn gid n (n'.storeGroupContent W env m content) := by
  unfold Node.storeGroupContent
  dsimp only
  have hstored : StaysIn gid n (((n'.store fun s => s.storeGroup env.faults m).store fun s =>
      s.storeGroupPlaintext env.faults m.id content).emit
        (.ws (.groupMessageReceived m.groupId m.senderDid m.id m.timestamp))) := h.store.store.emit _
  split_ifs
  · exact hstored
  · unfold sendGroupDelivered
    dsimp only
    split
    · rename_i heq
      rw [← (Prod.mk.inj heq).2]
      exact hstored.stored _
    · rename_i heq
      rw [← (Prod.mk.inj heq).2]
      exact (hstored.stored _).publishGroupReceipt

theorem freezeGroup (h : StaysIn gid n n') {adminDid : Option Did} : StaysIn gid n (n'.freezeGroup env g adminDid) := by
  unfold Node.freezeGroup
  split
  · exact h
  · exact h.store

theorem handleGroupPlaintext (h : StaysIn gid n n') {m : GroupMessage} {b : Bytes} :
    StaysIn gid n (n'.handleGroupPlaintext W env m b) := by
  rw [handleGroupPlaintext_eq]
  split
  · unfold Node.handleGroupReceipt
    split
    · exact h
    · split
      · exact h
      · exact (h.stored _).emit _
  · unfold Node.handleGroupMessageContent
    split
    · exact h.freezeGroup.emit _
    · split
      · exact (h.stored _).emit _
      · exact h
    · exact h.storeGroupContent
  · exact h

theorem cleanUpAfterRemoval (h : StaysIn gid n n') : StaysIn gid n (n'.cleanUpAfterRemoval env g) :=
  ((((h.leave g).emit .schedulePersist).store.store.store.store).emit _).refreshKeyPackage

theorem settleMembers (h : StaysIn gid n n') {before after : List Did} :
    StaysIn gid n (n'.settleMembers env g before after) := by
  have hfold (ds : List Did) {n₁ : Node M} (h₁ : StaysIn gid n n₁) :
      StaysIn gid n (ds.foldl (fun n d => n.emit (.ws (.groupMemberRemoved g d))) n₁) := by
    induction ds generalizing n₁ with
    | nil => exact h₁
    | cons d ds ih => exact ih (h₁.emit _)
  unfold Node.settleMembers
  split_ifs
  · exact hfold _ h
  · exact h.cleanUpAfterRemoval

theorem autoCommitProposals (h : StaysIn gid n n') {ms : List Did} :
    StaysIn gid n (n'.autoCommitProposals env g ms).2 := by
  unfold Node.autoCommitProposals
  split
  · exact h.mls (keeps_commitPendingProposals.bound ‹_›)
  · exact h.mls (keeps_commitPendingProposals.bound ‹_›)
  · have hmls := (h.mls (keeps_commitPendingProposals.bound ‹_›)).emit .schedulePersist
    dsimp only
    split
    · exact hmls
    · exact hmls.emit _

theorem afterHandshake (h : StaysIn gid n n') {before : List Did} : StaysIn gid n (n'.afterHandshake env g before) := by
  have hpersist := h.emit .schedulePersist
  unfold Node.afterHandshake
  dsimp only
  split_ifs
  · exact hpersist.autoCommitProposals.settleMembers
  · exact hpersist.settleMembers

theorem recordLiveFailure (h : StaysIn gid n n') : StaysIn gid n (n'.recordLiveFailure g) := by
  have hk : Keeps n'.mls (n'.mls.recordProcessingFailure g).2 := .of_eq rfl
  unfold Node.recordLiveFailure
  split
  · rename_i heq
    rw [heq] at hk
    exact (h.mls hk).emit _
  · rename_i heq
    rw [heq] at hk
    exact h.mls hk

theorem handleGroupMessage (h : StaysIn gid n n') {m : GroupMessage} : StaysIn gid n (n'.handleGroupMessage W env m) := by
  unfold Node.handleGroupMessage
  split_ifs
  · exact h
  · dsimp only
    split
    · exact h.recordLiveFailure
    · split
      · exact (h.mls ((keeps_processMessage _ _).bound ‹_›)).recordLiveFailure
      · have hk := ((keeps_processMessage _ _).bound ‹_›).trans (keeps_recordProcessingSuccess m.groupId)
        exact (h.mls hk).handleGroupPlaintext.emit _
      · have hk := ((keeps_processMessage _ _).bound ‹_›).trans (keeps_recordProcessingSuccess m.groupId)
        exact (h.mls hk).afterHandshake

theorem handleSyncedMessage (h : StaysIn gid n n') (env : Env) (m : GroupMessage) :
    StaysIn gid n (n'.handleSyncedMessage W env g m).2 := by
  unfold Node.handleSyncedMessage
  split_ifs
  · exact h
  · exact h
  · split
    · exact h
    · split
      · have hk := (keeps_processMessage _ _).bound ‹_›
        exact h.mls (hk.trans (.of_eq rfl))
      · exact h.mls (((keeps_processMessage _ _).bound ‹_›).trans (keeps_recordProcessingSuccess g))
      · have hmls := h.mls (((keeps_processMessage _ _).bound ‹_›).trans (keeps_recordProcessingSuccess g))
        dsimp only
        split
        · exact hmls.store.store.emit _
        · exact hmls.store.emit _

theorem handleSyncReceived (h : StaysIn gid n n') {xs : List (Env × GroupMessage)} :
    StaysIn gid n (n'.handleSyncReceived W g xs) := by
  have hfold (xs : List (Env × GroupMessage)) (acc : ℕ × Node M) (h : StaysIn gid n acc.2) :
      StaysIn gid n (xs.foldl (fun acc x =>
        let r := acc.2.handleSyncedMessage W x.1 g x.2
        (if r.1 then acc.1 + 1 else acc.1, r.2)) acc).2 := by
    induction xs generalizing acc with
    | nil => exact h
    | cons x xs ih => exact ih _ (h.handleSyncedMessage _ _)
  unfold Node.handleSyncReceived
  dsimp only
  split_ifs
  · exact (hfold xs (0, n') h).emit _
  · exact hfold xs (0, n') h

theorem readMessages (ids : List (Env × String)) (h : StaysIn gid n n') :
    StaysIn gid n (Node.readMessages W g ids n').2 := by
  induction ids generalizing n' with
  | nil => exact h
  | cons x ids ih =>
    obtain ⟨env, id⟩ := x
    have hread : StaysIn gid n (n'.sendGroupRead W env g id).2 := h.stored _
    rw [Node.readMessages]
    rcases hr : n'.sendGroupRead W env g id with ⟨e | r, n₁⟩
    · rw [hr] at hread
      exact hread
    · rw [hr] at hread
      exact ih hread.publishGroupReceipt

theorem selfUpdateGroup (h : StaysIn gid n n') : StaysIn gid n (n'.selfUpdateGroup env g) := by
  unfold Node.selfUpdateGroup
  split
  · exact h.mls (keeps_selfUpdate.bound ‹_›)
  · have hmls := h.mls (keeps_selfUpdate.bound ‹_›)
    dsimp only
    split
    · exact hmls
    · exact hmls.emit _

theorem sendWelcomes (h : StaysIn gid n n') (W : Wire) (env : Env) (net : ReinitNet) (id newId : String)
    (ts : List (Did × M.Message)) : StaysIn gid n (Node.sendWelcomes W env net id newId ts n').2 := by
  induction ts generalizing n' with
  | nil => exact h
  | cons t ts ih =>
    unfold Node.sendWelcomes
    split
    · exact h
    · dsimp only
      split_ifs
      · exact ih (h.emit _)
      · exact ih h

/-- A reinitialisation of another group. -/
theorem mlsReinitializeGroup (h : StaysIn gid n n') {net : ReinitNet} (hne : gid ≠ g) :
    StaysIn gid n (n'.mlsReinitializeGroup W env net g).2 := by
  by_cases hcol : ∃ kps, n'.Collects W net g kps
  · obtain ⟨kps, hcol⟩ := hcol
    have hre {r : Except MsgError (ReinitResult M)} {mls : MlsGroupHandler M}
        (heq : n'.mls.reinitializeGroup g kps env.rng = (r, mls)) : StaysIn gid n { n' with mls := mls } := by
      obtain ⟨es, hes, hg⟩ := h
      refine ⟨es, hes, fun hin => (hg hin).imp_left fun hin' => ?_⟩
      have hkept : gid ∈ (n'.mls.reinitializeGroup g kps env.rng).2.groups := keeps_reinitializeGroup hne hin'
      rwa [heq] at hkept
    rw [mlsReinitializeGroup_late env hcol]
    split
    · exact hre ‹_›
    · rename_i result mls heq
      have hcopied : StaysIn gid n
          ((Node.emit { n' with mls := mls } (.subscribe (groupTopic result.newGroupId))).copyMetadata env g
            result.newGroupId) :=
        ((hre heq).emit _).congr (copyMetadata_spec _ env g result.newGroupId).2.1
          (.of_eq (by rw [(copyMetadata_spec _ env g result.newGroupId).1]))
      have hsent := hcopied.sendWelcomes W env net g result.newGroupId result.welcomes
      split
      · rename_i heq'
        rw [heq'] at hsent
        exact hsent
      · rename_i heq'
        rw [heq'] at hsent
        exact (hsent.emit _).emit _
  · obtain ⟨e, he⟩ := mlsReinitializeGroup_early env fun kps hc => hcol ⟨kps, hc⟩
    rw [he]
    exact h

end StaysIn

/-- No direct message takes us out of a group. -/
theorem keeps_handleDirectContent {messageId : String} {timestamp : ℤ} {content : MessageContent} :
    Keeps n.mls (n.handleDirectContent W env d messageId timestamp content).mls := by
  unfold handleDirectContent
  dsimp only
  split
  · split
    · rw [store_mls, handleGroupInvitationDm_mls]
      exact .refl _
    · exact .refl _
  · split
    · rename_i g _
      have hconfirm : Keeps n.mls (n.mls.confirmAddMember g).2 := keeps_confirmAddMember
      unfold handleInviteAcceptedDm
      split
      · exact hconfirm.bound ‹_›
      · have hmerged := hconfirm.bound ‹_›
        simpa using hmerged
    · exact .refl _
  · split
    · exact keeps_cancelAddMember
    · exact .refl _
  · exact .refl _

/-- Whatever is served but the reinitialisation of the group itself. -/
theorem staysIn_serve (W : Wire) (n : Node M) {e : ClientEvent}
    (hne : ∀ env net, e ≠ .event (.reinitializeGroup env net gid)) : StaysIn gid n (n.serve W e) := by
  have h : StaysIn gid n n := .refl gid n
  cases e with
  | event e =>
    cases e with
    | op o =>
      cases o with
      | create env name => exact h.mlsCreateGroup
      | invite env net id invitee => exact h.mlsInviteToGroup
      | accept env g => exact h.acceptInvitation
      | decline env g => exact h.declineInvitation
      | acceptWelcome env hex => exact h.mlsAcceptWelcome
      | leave env id => exact h.mlsLeaveGroup
      | abandon env id => exact h.mlsAbandonGroup
      | delete env id => exact h.mlsDeleteGroup
      | removeMember env id d => exact h.mlsRemoveMember
      | changeRole env id d role => exact h.mlsChangeMemberRole
      | send env g text replyTo md => exact h.mlsSendGroupMessage
      | direct env d mid ts c => exact h.handleDirectContent
      | group env m => exact h.handleGroupMessage
      | sync g xs => exact h.handleSyncReceived
      | sweep env => exact h.sweepExpiredInvites
    | reinitializeGroup env net id =>
      refine h.mlsReinitializeGroup fun heq => ?_
      subst heq
      exact hne env net rfl
    | selfUpdate env g => exact h.selfUpdateGroup
  | addGroupReaction env g id emoji =>
    change StaysIn gid n (n.addGroupReaction W env g id emoji).2
    unfold addGroupReaction
    split_ifs
    · exact h
    · exact h.sendGroupContent
  | removeGroupReaction env g id emoji => exact h.sendGroupContent
  | wsSendGroupMessage env g text replyTo => exact h.wsSendGroupMessage
  | sendGroupReadReceipts g ids =>
    change StaysIn gid n (n.sendGroupReadReceipts W g ids).2
    unfold sendGroupReadReceipts
    split_ifs
    · exact h
    · exact h.readMessages ids

end Node
end Variance
