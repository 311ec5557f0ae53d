import Variance.Sanity.Writes

/-! What the two group listeners make of a message that decrypts: the payload it carries, what is stored
of it, and what is announced. -/

namespace Variance

/-- What the live listener takes a plaintext for. -/
def livePayload (W : Wire) (plaintext : Bytes) : Option GroupPayload :=
  match W.decodeGroupPayload plaintext with
  | some payload => some payload
  | none => (W.decodeMessageContent plaintext).map .message

namespace Node
variable {M : OpenMls} {n : Node M} {W : Wire} {env : Env} {g : String} {m : GroupMessage}
  {d : DecryptedMessage} {content : MessageContent}

/-- The ciphertext of `m` is an application message of group `g`. -/
def Decrypts (n : Node M) (g : String) (m : GroupMessage) (d : DecryptedMessage) : Prop :=
  m.mlsCiphertext ≠ [] ∧ ∃ mlsMsg, M.deserializeMessage m.mlsCiphertext = .ok mlsMsg ∧
    (n.mls.processMessage g mlsMsg).1 = .ok (some d)

theorem handleGroupPlaintext_eq {b : Bytes} : n.handleGroupPlaintext W env m b =
    match livePayload W b with
    | some (.receipt receipt) => n.handleGroupReceipt env m.groupId receipt
    | some (.message content) => n.handleGroupMessageContent W env m content
    | none => n := by
  unfold handleGroupPlaintext livePayload
  cases W.decodeGroupPayload b with
  | some p => cases p <;> rfl
  | none => cases W.decodeMessageContent b <;> rfl

/-- The live listener on an application message: its handshake half is not reached. -/
theorem Decrypts.live (h : n.Decrypts m.groupId m d) (W : Wire) (env : Env) :
    ∃ mls, n.handleGroupMessage W env m =
      (handleGroupPlaintext { n with mls := mls } W env m d.plaintext).emit .schedulePersist := by
  obtain ⟨hne, mlsMsg, hd, hp⟩ := h
  rcases hr : n.mls.processMessage m.groupId mlsMsg with ⟨r, mls⟩
  rw [hr] at hp
  dsimp only at hp
  subst hp
  refine ⟨mls.recordProcessingSuccess m.groupId, ?_⟩
  unfold handleGroupMessage
  rw [if_neg hne, hd]
  dsimp only
  rw [hr]

/-- The sync listener on an application message it does not have yet. -/
theorem Decrypts.synced (h : n.Decrypts g m d) (hn : n.storage.hasGroupMessage g m.id = false) (W : Wire)
    (env : Env) : ∃ mls, (n.handleSyncedMessage W env g m).2 =
      (match W.decodeMessageContent d.plaintext with
        | some content => (store { n with mls := mls } fun s => s.storeGroup env.faults m).persistGroupPlaintext
            env m.id content
        | none => store { n with mls := mls } fun s => s.storeGroup env.faults m).emit
        (.ws (.groupMessageReceived g m.senderDid m.id m.timestamp)) := by
  obtain ⟨hne, mlsMsg, hd, hp⟩ := h
  rcases hr : n.mls.processMessage g mlsMsg with ⟨r, mls⟩
  rw [hr] at hp
  dsimp only at hp
  subst hp
  refine ⟨mls.recordProcessingSuccess g, ?_⟩
  unfold handleSyncedMessage
  rw [hn, if_neg (by simp), if_neg hne, hd]
  dsimp only
  rewrite [hr]
  rfl

@[simp] theorem publishGroupReceipt_storage {r : GroupReadReceipt} :
    (n.publishGroupReceiptFromEventRouter W env g r).storage = n.storage := by
  unfold publishGroupReceiptFromEventRouter
  split
  · rfl
  · dsimp only
    split <;> rfl

/-- A message that is kept: the message, its plaintext, and perhaps our own DELIVERED. -/
theorem storeGroupContent_storage : (n.storeGroupContent W env m content).storage =
    (if m.senderDid = n.localDid then id
      else fun s => (s.storeGroupReceipt env.faults
        { messageId := m.id, groupId := m.groupId, readerDid := n.localDid, status := receiptDelivered
          timestamp := env.now, signature := W.signGroupReceipt n.localDid
            { messageId := m.id, groupId := m.groupId, readerDid := n.localDid
              status := receiptDelivered, timestamp := env.now, signature := [] } }).2)
      (((n.storage.storeGroup env.faults m).2.storeGroupPlaintext env.faults m.id content).2) := by
  unfold storeGroupContent
  dsimp only
  change (ite (m.senderDid = n.localDid) _ _ : Node M).storage = _
  split_ifs
  · rfl
  · unfold sendGroupDelivered
    split
    · rename_i heq
      rw [← (Prod.mk.inj heq).2]
      rfl
    · rename_i heq
      rw [publishGroupReceipt_storage, ← (Prod.mk.inj heq).2]
      rfl

theorem storeGroupContent_metadata :
    (n.storeGroupContent W env m content).storage.groupMetadata = n.storage.groupMetadata := by
  rw [storeGroupContent_storage]
  split_ifs <;> rfl

theorem handleGroupReceipt_metadata {r : GroupReadReceipt} :
    (n.handleGroupReceipt env g r).storage.groupMetadata = n.storage.groupMetadata := by
  unfold handleGroupReceipt
  by_cases hr : r.readerDid = n.localDid
  · rw [if_pos hr]
  · rw [if_neg hr]
    split
    · rfl
    · rename_i heq
      rw [emit_storage, ← (Prod.mk.inj heq).2]

/-! The kinds of content -/

theorem handleGroupMessageContent_abandoned (ht : content.metadata["type"]? = some "admin_abandoned") :
    n.handleGroupMessageContent W env m content =
      (n.freezeGroup env m.groupId content.metadata["admin_did"]?).emit (.ws (.groupFrozen m.groupId)) := by
  simp only [handleGroupMessageContent, ht]

theorem handleGroupMessageContent_role {targetDid newRole : String}
    (ht : content.metadata["type"]? = some "role_change") (hd : content.metadata["target_did"]? = some targetDid)
    (hr : content.metadata["new_role"]? = some newRole) : n.handleGroupMessageContent W env m content =
      emit { n with storage :=
          (n.storage.updateMemberRole env.faults m.groupId targetDid (roleOfLabel newRole)).2 }
        (.ws (.roleChanged m.groupId targetDid newRole m.senderDid)) := by
  simp only [handleGroupMessageContent, ht, hd, hr]

/-- A role change that lacks its target or its role. -/
theorem handleGroupMessageContent_incomplete (ht : content.metadata["type"]? = some "role_change")
    (h : ∀ targetDid newRole, content.metadata["target_did"]? = some targetDid →
      content.metadata["new_role"]? = some newRole → False) : n.handleGroupMessageContent W env m content = n := by
  simp only [handleGroupMessageContent, ht]

theorem handleGroupMessageContent_kept (ha : content.metadata["type"]? = some "admin_abandoned" → False)
    (hr : content.metadata["type"]? = some "role_change" → False) :
    n.handleGroupMessageContent W env m content = n.storeGroupContent W env m content := by
  unfold handleGroupMessageContent
  split
  · rename_i ht
    exact (ha ht).elim
  · rename_i ht
    exact (hr ht).elim
  · rfl

/-- A message that is sent and not kept leaves the store alone. -/
theorem sendGroupContent_storage : (n.sendGroupContent W env g content false).2.storage = n.storage := by
  unfold sendGroupContent
  split
  · rfl
  · dsimp only
    split
    · rfl
    · rfl

/-- The sync listener never touches the metadata. -/
theorem handleSyncedMessage_metadata :
    (n.handleSyncedMessage W env g m).2.storage.groupMetadata = n.storage.groupMetadata := by
  unfold handleSyncedMessage
  split_ifs
  · rfl
  · rfl
  · split
    · rfl
    · split
      · rfl
      · rfl
      · dsimp only
        split <;> rfl

theorem handleSyncReceived_metadata {xs : List (Env × GroupMessage)} :
    (n.handleSyncReceived W g xs).storage.groupMetadata = n.storage.groupMetadata := by
  have hfold : ∀ (xs : List (Env × GroupMessage)) (acc : ℕ × Node M), (xs.foldl (fun acc x =>
      let r := acc.2.handleSyncedMessage W x.1 g x.2
      (if r.1 then acc.1 + 1 else acc.1, r.2)) acc).2.storage.groupMetadata = acc.2.storage.groupMetadata := by
    intro xs
    induction xs with
    | nil => exact fun _ => rfl
    | cons x xs ih => exact fun acc => (ih _).trans handleSyncedMessage_metadata
  unfold handleSyncReceived
  dsimp only
  split_ifs
  · exact hfold xs (0, n)
  · exact hfold xs (0, n)

/-! What is announced to the frontend -/

/-- The messages to the frontend among the effects. -/
def wsMessages (es : List Effect) : List WsMessage :=
  es.filterMap fun
    | .ws w => some w
    | _ => none

/-- Effects were only added, and the frontend heard `ns`. -/
def Announces (ns : List WsMessage) (n n' : Node M) : Prop :=
  ∃ es, n'.effects = n.effects ++ es ∧ wsMessages es = ns

/-- What a step announced. -/
def notices (n n' : Node M) : List WsMessage := wsMessages (n'.effects.drop n.effects.length)

variable {n' : Node M} {ns : List WsMessage}

theorem Announces.notices_eq (h : Announces ns n n') : notices n n' = ns := by
  obtain ⟨es, he, hw⟩ := h
  rw [notices, he, List.drop_left, hw]

theorem Announces.of_eq (h : n'.effects = n.effects) : Announces [] n n' := ⟨[], by simp [h], rfl⟩

theorem Announces.tell (h : Announces ns n n') (w : WsMessage) : Announces (ns ++ [w]) n (n'.emit (.ws w)) := by
  obtain ⟨es, he, hw⟩ := h
  refine ⟨es ++ [.ws w], by simp [he], ?_⟩
  rw [← hw]
  simp [wsMessages]

theorem Announces.quiet (h : Announces ns n n') {e : Effect} (he : wsMessages [e] = []) :
    Announces ns n (n'.emit e) := by
  obtain ⟨es, hes, hw⟩ := h
  refine ⟨es ++ [e], by simp [hes], ?_⟩
  rw [← hw]
  unfold wsMessages at he ⊢
  simp [he]

theorem Announces.congr (h : Announces ns n n') {n'' : Node M} (he : n''.effects = n'.effects) :
    Announces ns n n'' := by
  obtain ⟨es, hes, hw⟩ := h
  exact ⟨es, by rw [he, hes], hw⟩

theorem Announces.publishGroupReceipt (h : Announces ns n n') {r : GroupReadReceipt} :
    Announces ns n (n'.publishGroupReceiptFromEventRouter W env g r) := by
  unfold publishGroupReceiptFromEventRouter
  split
  · exact h.congr rfl
  · dsimp only
    split
    · exact h.congr rfl
    · refine Announces.quiet (Announces.quiet ?_ rfl) rfl
      exact h.congr rfl

theorem announces_storeGroupContent : Announces [.groupMessageReceived m.groupId m.senderDid m.id m.timestamp] n
    (n.storeGroupContent W env m content) := by
  have hstored : Announces [.groupMessageReceived m.groupId m.senderDid m.id m.timestamp] n
      (((n.store fun s => s.storeGroup env.faults m).persistGroupPlaintext env m.id content).emit
        (.ws (.groupMessageReceived m.groupId m.senderDid m.id m.timestamp))) :=
    Announces.tell (.of_eq rfl) _
  unfold storeGroupContent
  dsimp only
  split_ifs
  · exact hstored
  · unfold sendGroupDelivered
    split
    · rename_i heq
      rw [← (Prod.mk.inj heq).2]
      exact hstored.congr rfl
    · rename_i heq
      refine Announces.publishGroupReceipt (hstored.congr ?_)
      rw [← (Prod.mk.inj heq).2]

/-- What the live listener announces of a message's content. -/
def contentNotices (m : GroupMessage) (content : MessageContent) : List WsMessage :=
  match content.metadata["type"]? with
  | some "admin_abandoned" => [.groupFrozen m.groupId]
  | some "role_change" =>
    match content.metadata["target_did"]?, content.metadata["new_role"]? with
    | some targetDid, some newRole => [.roleChanged m.groupId targetDid newRole m.senderDid]
    | _, _ => []
  | _ => [.groupMessageReceived m.groupId m.senderDid m.id m.timestamp]

theorem announces_handleGroupMessageContent (n : Node M) (W : Wire) (env : Env) (m : GroupMessage)
    (content : MessageContent) :
    Announces (contentNotices m content) n (n.handleGroupMessageContent W env m content) := by
  unfold contentNotices
  split
  · rename_i ht
    rw [handleGroupMessageContent_abandoned ht]
    refine Announces.tell (.of_eq ?_) _
    unfold freezeGroup
    split <;> rfl
  · rename_i ht
    split
    · rename_i hd hr
      rw [handleGroupMessageContent_role ht hd hr]
      exact Announces.tell (.of_eq rfl) _
    · rename_i hnone
      rw [handleGroupMessageContent_incomplete ht hnone]
      exact .of_eq rfl
  · rename_i ha hr
    rw [handleGroupMessageContent_kept ha hr]
    exact announces_storeGroupContent

/-- A receipt of our own, or one that cannot be stored, is passed over. -/
theorem handleGroupReceipt_ignored {r : GroupReadReceipt}
    (h : r.readerDid = n.localDid ∨ env.faults "group_receipts" (LocalMessageStorage.groupReceiptKey r) = true) :
    n.handleGroupReceipt env g r = n := by
  unfold handleGroupReceipt
  rcases h with h | h
  · rw [if_pos h]
  · simp [LocalMessageStorage.storeGroupReceipt, treeInsert, h]

theorem handleGroupReceipt_stored {r : GroupReadReceipt} (hr : r.readerDid ≠ n.localDid)
    (hf : env.faults "group_receipts" (LocalMessageStorage.groupReceiptKey r) = false) :
    n.handleGroupReceipt env g r = (n.store fun s => s.storeGroupReceipt env.faults r).emit
      (.ws (if r.status = receiptRead then .groupReceiptRead g r.messageId r.readerDid
        else .groupReceiptDelivered g r.messageId r.readerDid)) := by
  simp [handleGroupReceipt, hr, LocalMessageStorage.storeGroupReceipt, treeInsert, hf, store]

end Node
end Variance
