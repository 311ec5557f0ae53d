import Variance.Sanity.Handshakes
import Variance.Spec.Clients

/-! What a step tells the world, and what becomes of one group's metadata in it. -/

namespace Variance
namespace Node
variable {M : OpenMls} {n n' n'' : Node M} {W : Wire} {env : Env} {gid g : String}

open LocalMessageStorage MlsGroupHandler

/-! The stores stay keyed -/

theorem keyed_sendWelcomes {net : ReinitNet} {id newId : String} {ts : List (Did × M.Message)}
    (h : n.storage.Keyed) : (sendWelcomes W env net id newId ts n).2.storage.Keyed := by
  obtain ⟨es, hn, -⟩ := sendWelcomes_spec W env net id newId ts n
  rw [hn]
  exact h

theorem keyed_mlsReinitializeGroup {net : ReinitNet} {id : String} (h : n.storage.Keyed) :
    (n.mlsReinitializeGroup W env net id).2.storage.Keyed := by
  have hcopy {n : Node M} {newId : String} (h : n.storage.Keyed) : (n.copyMetadata env id newId).storage.Keyed := by
    unfold copyMetadata
    split
    · exact h
    · exact h.storeGroupMetadata
  unfold mlsReinitializeGroup
  split
  · exact h
  split_ifs
  · exact h
  split
  · exact h
  split
  · exact h
  split
  · exact h
  · rename_i result mls _
    dsimp only
    have hsent : (sendWelcomes W env net id result.newGroupId result.welcomes
        ((emit { n with mls := mls } (.subscribe (groupTopic result.newGroupId))).copyMetadata env id
          result.newGroupId)).2.storage.Keyed := keyed_sendWelcomes (hcopy h)
    split
    · rename_i heq
      rw [heq] at hsent
      exact hsent
    · rename_i heq
      rw [heq] at hsent
      exact hsent

theorem keyed_sendGroupContent {content : MessageContent} {keep : Bool} (h : n.storage.Keyed) :
    (n.sendGroupContent W env g content keep).2.storage.Keyed := by
  refine (acts_sendGroupContent n W env g content keep).invariant (fun s f w hw hs => hs.apply f ?_) h
  rcases hw with ⟨m, -, -, rfl⟩ | ⟨id, c, rfl⟩
  · trivial
  · trivial

theorem keyed_wsSendGroupMessage {text : String} {replyTo : Option String} (h : n.storage.Keyed) :
    (n.wsSendGroupMessage W env g text replyTo).storage.Keyed := by
  unfold wsSendGroupMessage
  dsimp only
  split
  · exact h
  · split
    · exact h
    · exact h.congr rfl rfl

/-- The receipts touch neither the metadata nor the invites. -/
theorem readMessages_stores (ids : List (Env × String)) (n : Node M) :
    (readMessages W g ids n).2.storage.outboundInvites = n.storage.outboundInvites ∧
      (readMessages W g ids n).2.storage.groupMetadata = n.storage.groupMetadata := by
  induction ids generalizing n with
  | nil => exact ⟨rfl, rfl⟩
  | cons x ids ih =>
    obtain ⟨env, id⟩ := x
    have hread : (n.sendGroupRead W env g id).2.storage.outboundInvites = n.storage.outboundInvites ∧
        (n.sendGroupRead W env g id).2.storage.groupMetadata = n.storage.groupMetadata := ⟨rfl, rfl⟩
    rw [readMessages]
    rcases hr : n.sendGroupRead W env g id with ⟨e | r, n₁⟩
    · rw [hr] at hread
      exact hread
    · rw [hr] at hread
      dsimp only
      have hpub : (n₁.publishGroupReceipt W env g r).storage = n₁.storage := publishGroupReceipt_storage
      rw [(ih _).1, (ih _).2, hpub]
      exact hread

theorem keyed_serve (e : ClientEvent) (h : n.storage.Keyed) : (n.serve W e).storage.Keyed := by
  cases e with
  | event e =>
    cases e with
    | op o => exact keyed_exec o h
    | reinitializeGroup env net id => exact keyed_mlsReinitializeGroup h
    | selfUpdate env id =>
      change (n.selfUpdateGroup env id).storage.Keyed
      unfold selfUpdateGroup
      split
      · exact h
      · dsimp only
        split
        · exact h
        · exact h
  | addGroupReaction env g id emoji =>
    change (n.addGroupReaction W env g id emoji).2.storage.Keyed
    unfold addGroupReaction
    split_ifs
    · exact h
    · exact keyed_sendGroupContent h
  | removeGroupReaction env g id emoji => exact keyed_sendGroupContent h
  | wsSendGroupMessage env g text replyTo => exact keyed_wsSendGroupMessage h
  | sendGroupReadReceipts g ids =>
    change (n.sendGroupReadReceipts W g ids).2.storage.Keyed
    unfold sendGroupReadReceipts
    split_ifs
    · exact h
    · exact h.congr (readMessages_stores ids n).1 (readMessages_stores ids n).2

theorem keyed_served (h : StepSystem.Reachable (clientSys M W) n) : n.storage.Keyed := by
  refine h.invariant (I := fun n => n.storage.Keyed) (fun n hn => ?_) fun n e hn _ => keyed_serve e hn
  rw [hn.storage]
  exact .empty

/-- A node that is asked nothing more. -/
theorem served_of_reachable (h : StepSystem.Reachable (nodeSys M W) n) : StepSystem.Reachable (clientSys M W) n := by
  induction h with
  | init hn => exact .init hn
  | @snoc n o _ _ ih => exact ih.snoc (e := .event (.op o)) trivial

theorem served_exec (h : StepSystem.Reachable (clientSys M W) n) (o : Op) :
    StepSystem.Reachable (clientSys M W) (n.exec W o) := by
  have hstep := StepSystem.Reach.snoc (e := ClientEvent.event (.op o)) h trivial
  exact hstep

/-! What is published to the group -/

/-- Effects were only added, and none of them speaks to the group. -/
def Hushed (gid : String) (n n' : Node M) : Prop :=
  ∃ es, n'.effects = n.effects ++ es ∧ ∀ x ∈ es, ¬ x.Speaks gid

namespace Hushed

theorem refl (gid : String) (n : Node M) : Hushed gid n n := ⟨[], by simp⟩

theorem congr (h : Hushed gid n n') (he : n''.effects = n'.effects) : Hushed gid n n'' := by
  obtain ⟨es, hes, hall⟩ := h
  exact ⟨es, he.trans hes, hall⟩

theorem emit (h : Hushed gid n n') {x : Effect} (hx : ¬ x.Speaks gid) : Hushed gid n (n'.emit x) := by
  obtain ⟨es, hes, hall⟩ := h
  refine ⟨es ++ [x], by rw [emit_effects, hes, List.append_assoc], fun y hy => ?_⟩
  rcases List.mem_append.1 hy with hy | hy
  · exact hall y hy
  · exact List.mem_singleton.1 hy ▸ hx

theorem mls (h : Hushed gid n n') (mls : MlsGroupHandler M) : Hushed gid n { n' with mls := mls } := h.congr rfl

theorem store (h : Hushed gid n n') {op : LocalMessageStorage → Except MsgError Unit × LocalMessageStorage} :
    Hushed gid n (n'.store op) := h.congr rfl

/-- A commit, a proposal or a receipt is no content. -/
theorem publish (h : Hushed gid n n') (topic : String) {m : GroupMessage} (hm : m.type = 0) :
    Hushed gid n (n'.emit (.publish topic m)) :=
  h.emit fun hs => absurd (hm.symm.trans hs.2) (by decide)

theorem refreshKeyPackage (h : Hushed gid n n') {b : Bool} : Hushed gid n (n'.refreshKeyPackage env b) := by
  unfold Node.refreshKeyPackage
  split
  · exact h.mls _
  · rename_i mls _
    dsimp only
    split
    · exact h.mls mls
    · split_ifs
      · exact emit (emit (h.mls mls) id) id
      · exact emit (h.mls mls) id

theorem purgeGroup (h : Hushed gid n n') : Hushed gid n (n'.purgeGroup env g) := h.store.store.store.store

theorem departGroup (h : Hushed gid n n') : Hushed gid n (n'.departGroup env g).2 := by
  unfold Node.departGroup
  split
  · exact h.mls _
  · rename_i mls _
    dsimp only
    split
    · exact h.mls mls
    · refine refreshKeyPackage (purgeGroup (emit (Hushed.mls (emit (publish (h.mls mls) _ ?_) ?_) _) ?_))
      · rfl
      · exact id
      · exact id

theorem enterGroup (h : Hushed gid n n') {i : GroupInvitation} {joined : String} :
    Hushed gid n (n'.enterGroup env i joined) := by
  have hpersist : Hushed gid n (n'.emit .schedulePersist) := h.emit id
  exact hpersist.store.emit id

theorem answerInvitation (h : Hushed gid n n') {i : GroupInvitation} {joined : String} :
    Hushed gid n (n'.answerInvitation env i g joined) := by
  unfold Node.answerInvitation
  refine Hushed.store ?_
  split_ifs
  · exact h.emit id
  · exact h

theorem acceptInvitation (h : Hushed gid n n') : Hushed gid n (n'.acceptInvitation env g).2 := by
  unfold Node.acceptInvitation
  split
  · exact h
  split
  · exact h
  split
  · exact h.mls _
  · rename_i mls _
    exact (h.mls mls).enterGroup.refreshKeyPackage.answerInvitation

theorem declineInvitation (h : Hushed gid n n') : Hushed gid n (n'.declineInvitation env g).2 := by
  unfold Node.declineInvitation
  split
  · exact h
  · dsimp only
    refine Hushed.store ?_
    split_ifs
    · exact h.emit id
    · exact h

theorem acceptWelcome (h : Hushed gid n n') {hex : String} : Hushed gid n (n'.mlsAcceptWelcome W env hex).2 := by
  unfold mlsAcceptWelcome
  split
  · exact h
  split
  · exact h
  split
  · exact h.mls _
  · rename_i mls _
    have hjoined : Hushed gid n (Node.emit { n' with mls := mls } .schedulePersist) := emit (h.mls mls) id
    dsimp only
    refine emit ?_ id
    split
    · exact hjoined
    · exact hjoined.store

theorem publishGroupReceipt (h : Hushed gid n n') {r : GroupReadReceipt} :
    Hushed gid n (n'.publishGroupReceiptFromEventRouter W env g r) := by
  unfold publishGroupReceiptFromEventRouter
  split
  · exact h.mls _
  · rename_i mls _
    dsimp only
    split
    · exact h.mls mls
    · exact emit (publish (h.mls mls) _ rfl) id

theorem storeGroupContent (h : Hushed gid n n') {m : GroupMessage} {content : MessageContent} :
    Hushed gid n (n'.storeGroupContent W env m content) := by
  have hstored : Hushed gid n (((n'.store fun s => s.storeGroup env.faults m).persistGroupPlaintext env m.id
      content).emit (.ws (.groupMessageReceived m.groupId m.senderDid m.id m.timestamp))) := emit (h.congr rfl) id
  unfold Node.storeGroupContent
  dsimp only
  split_ifs
  · exact hstored
  · unfold sendGroupDelivered
    split
    · rename_i heq
      rw [← (Prod.mk.inj heq).2]
      exact hstored.congr rfl
    · rename_i heq
      refine publishGroupReceipt (hstored.congr ?_)
      rw [← (Prod.mk.inj heq).2]

theorem handleGroupPlaintext (h : Hushed gid n n') {m : GroupMessage} {b : Bytes} :
    Hushed gid n (n'.handleGroupPlaintext W env m b) := by
  rw [handleGroupPlaintext_eq]
  split
  · rename_i r _
    unfold handleGroupReceipt
    by_cases hr : r.readerDid = n'.localDid
    · rw [if_pos hr]
      exact h
    · rw [if_neg hr]
      split
      · exact h
      · exact emit (h.congr rfl) id
  · unfold handleGroupMessageContent
    split
    · refine emit (h.congr ?_) id
      unfold freezeGroup
      split <;> rfl
    · split
      · exact emit (h.congr rfl) id
      · exact h
    · exact h.storeGroupContent
  · exact h

theorem cleanUpAfterRemoval (h : Hushed gid n n') : Hushed gid n (n'.cleanUpAfterRemoval env g) := by
  have hout : Hushed gid n (n'.emit (.unsubscribe (groupTopic g))) := h.emit id
  have hgone : Hushed gid n (Node.emit { (n'.emit (.unsubscribe (groupTopic g))) with
      mls := n'.mls.removeGroup g } .schedulePersist) := emit (hout.mls _) id
  exact refreshKeyPackage (emit hgone.store.store.store.store id)

theorem settleMembers (h : Hushed gid n n') {before after : List Did} :
    Hushed gid n (n'.settleMembers env g before after) := by
  have hfold (ds : List Did) {n₁ : Node M} (h₁ : Hushed gid n n₁) :
      Hushed gid n (ds.foldl (fun n d => n.emit (.ws (.groupMemberRemoved g d))) n₁) := by
    induction ds generalizing n₁ with
    | nil => exact h₁
    | cons d ds ih =>
      have hone : Hushed gid n (n₁.emit (.ws (.groupMemberRemoved g d))) := h₁.emit id
      exact ih hone
  unfold Node.settleMembers
  split_ifs
  · exact hfold _ h
  · exact h.cleanUpAfterRemoval

theorem autoCommitProposals (h : Hushed gid n n') {ms : List Did} :
    Hushed gid n (n'.autoCommitProposals env g ms).2 := by
  unfold Node.autoCommitProposals
  split
  · exact h.mls _
  · exact h.mls _
  · rename_i mls _
    have hmade : Hushed gid n (Node.emit { n' with mls := mls } .schedulePersist) := emit (h.mls mls) id
    dsimp only
    split
    · exact hmade
    · exact hmade.publish _ rfl

theorem afterHandshake (h : Hushed gid n n') {before : List Did} : Hushed gid n (n'.afterHandshake env g before) := by
  have hpersist : Hushed gid n (n'.emit .schedulePersist) := h.emit id
  unfold Node.afterHandshake
  dsimp only
  split_ifs
  · exact hpersist.autoCommitProposals.settleMembers
  · exact hpersist.settleMembers

theorem recordLiveFailure (h : Hushed gid n n') : Hushed gid n (n'.recordLiveFailure g) := by
  unfold Node.recordLiveFailure
  split
  · exact emit (h.congr rfl) id
  · exact h.congr rfl

theorem handleGroupMessage (h : Hushed gid n n') {m : GroupMessage} :
    Hushed gid n (n'.handleGroupMessage W env m) := by
  unfold Node.handleGroupMessage
  split_ifs
  · exact h
  · dsimp only
    split
    · exact h.recordLiveFailure
    · split
      · exact (h.mls _).recordLiveFailure
      · exact emit (handleGroupPlaintext (h.mls _)) id
      · exact afterHandshake (h.mls _)

theorem handleSyncReceived (h : Hushed gid n n') {xs : List (Env × GroupMessage)} :
    Hushed gid n (n'.handleSyncReceived W g xs) := by
  have hone {n' : Node M} (h : Hushed gid n n') (env : Env) (m : GroupMessage) :
      Hushed gid n (n'.handleSyncedMessage W env g m).2 := by
    unfold handleSyncedMessage
    split_ifs
    · exact h
    · exact h
    · split
      · exact h
      · split
        · exact h.congr rfl
        · exact h.congr rfl
        · dsimp only
          refine emit ?_ id
          split
          · exact h.congr rfl
          · exact h.congr rfl
  have hfold (xs : List (Env × GroupMessage)) (acc : ℕ × Node M) (h : Hushed gid n acc.2) :
      Hushed gid n (xs.foldl (fun acc x =>
        let r := acc.2.handleSyncedMessage W x.1 g x.2
        (if r.1 then acc.1 + 1 else acc.1, r.2)) acc).2 := by
    induction xs generalizing acc with
    | nil => exact h
    | cons x xs ih => exact ih _ (hone h _ _)
  unfold Node.handleSyncReceived
  dsimp only
  split_ifs
  · exact (hfold xs (0, n') h).emit id
  · exact hfold xs (0, n') h

theorem readMessages (ids : List (Env × String)) (h : Hushed gid n n') :
    Hushed gid n (Node.readMessages W g ids n').2 := by
  induction ids generalizing n' with
  | nil => exact h
  | cons x ids ih =>
    obtain ⟨env, id⟩ := x
    have hread : (n'.sendGroupRead W env g id).2.effects = n'.effects := rfl
    rw [Node.readMessages]
    rcases hr : n'.sendGroupRead W env g id with ⟨e | r, n₁⟩
    · rw [hr] at hread
      exact h.congr hread
    · rw [hr] at hread
      exact ih (publishGroupReceipt (h.congr hread))

end Hushed

end Node
end Variance
