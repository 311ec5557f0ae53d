import Variance.Proofs.RemoteAuthority
import Variance.Sanity.Handshakes
import Variance.Spec.History

/-! The two ways in for a group's messages, side by side. The live listener tells the payloads apart and cleans up after
a removal, the sync listener files whatever decrypts; so a batch leaves them with the same stores if and only if each
message comes to the same. -/

namespace Variance

section Trees
variable {β : Type} {f : Faults} {tree key k : String} {a b : Option β} {v : β} {t : SledTree β}

/-- Write a value if there is one. -/
def put (f : Faults) (tree key : String) (a : Option β) (t : SledTree β) : SledTree β :=
  match a with
  | none => t
  | some v => (treeInsert f tree key v t).2

/-- Two writes under a key come to the same: they fail, or leave the same there. -/
def Agree (f : Faults) (tree key : String) (t : SledTree β) (a b : Option β) : Prop :=
  f tree key = true ∨ (a <|> t[key]?) = (b <|> t[key]?)

theorem get_put : (put f tree key a t)[k]? = if key = k ∧ f tree key = false then (a <|> t[k]?) else t[k]? := by
  cases a with
  | none => simp [put]
  | some v => exact get_treeInsert

theorem put_eq_put_iff : put f tree key a t = put f tree key b t ↔ Agree f tree key t a b := by
  constructor
  · intro h
    by_cases hf : f tree key = true
    · exact Or.inl hf
    · have hk : (put f tree key a t)[key]? = (put f tree key b t)[key]? := by rw [h]
      simp only [get_put, Bool.not_eq_true] at hk hf
      exact Or.inr (by simpa [hf] using hk)
  · intro h
    refine Std.ExtTreeMap.ext_getElem? fun k => ?_
    rw [get_put, get_put]
    split_ifs with hk
    · obtain ⟨rfl, hf⟩ := hk
      exact h.resolve_left (by simp [hf])
    · rfl

end Trees

namespace LocalMessageStorage
variable {s : LocalMessageStorage} {f : Faults} {m : GroupMessage}

/-- All that a group message may have written: itself, its content, a receipt, and the group's record. -/
def filing (s : LocalMessageStorage) (f : Faults) (m : GroupMessage) (message : Option GroupMessage)
    (content : Option MessageContent) (receipt : Option GroupReadReceipt) (group : Option (String × Group)) :
    LocalMessageStorage :=
  { s with
    groupMessages := put f "group_messages" m.key message s.groupMessages
    groupPlaintext := put f "group_plaintext_cache" m.id content s.groupPlaintext
    groupReceipts := put f "group_receipts" (receipt.elim "" groupReceiptKey) receipt s.groupReceipts
    groupMetadata := put f "group_metadata" (group.elim "" (·.1)) (group.map (·.2)) s.groupMetadata }

/-- The same is written, when the second alone writes receipts and records. -/
theorem filing_eq_iff {x y : Option GroupMessage} {c d : Option MessageContent} {r : Option GroupReadReceipt}
    {g : Option (String × Group)} : s.filing f m x c none none = s.filing f m y d r g ↔
      Agree f "group_messages" m.key s.groupMessages x y ∧
      Agree f "group_plaintext_cache" m.id s.groupPlaintext c d ∧
      (∀ receipt, r = some receipt →
        Agree f "group_receipts" (groupReceiptKey receipt) s.groupReceipts none (some receipt)) ∧
      ∀ k group, g = some (k, group) → Agree f "group_metadata" k s.groupMetadata none (some group) := by
  have hreceipt : s.groupReceipts = put f "group_receipts" (r.elim "" groupReceiptKey) r s.groupReceipts ↔
      ∀ receipt, r = some receipt →
        Agree f "group_receipts" (groupReceiptKey receipt) s.groupReceipts none (some receipt) := by
    cases r with
    | none => simp [put]
    | some receipt =>
      refine (put_eq_put_iff (a := none)).trans ⟨?_, fun h => h receipt rfl⟩
      rintro h receipt ⟨⟩
      exact h
  have hgroup : s.groupMetadata = put f "group_metadata" (g.elim "" (·.1)) (g.map (·.2)) s.groupMetadata ↔
      ∀ k group, g = some (k, group) → Agree f "group_metadata" k s.groupMetadata none (some group) := by
    cases g with
    | none => simp [put]
    | some p =>
      refine (put_eq_put_iff (a := none)).trans ⟨?_, fun h => h p.1 p.2 rfl⟩
      rintro h k group ⟨⟩
      exact h
  rw [← put_eq_put_iff, ← put_eq_put_iff, ← hreceipt, ← hgroup]
  unfold filing
  simp only [mk.injEq, true_and, and_true, put, Option.map_none]
  tauto

end LocalMessageStorage

namespace MlsGroupHandler
variable {M : OpenMls} {h : MlsGroupHandler M} {gid k : String}

/-! Which groups are held -/

@[simp] theorem withGroup_held {α : Type} {wrap : String → MsgError} {op : M.GroupOp α} :
    ((h.withGroup gid wrap op).2.groups[k]?).isSome = (h.groups[k]?).isSome := by
  cases hg : h.groups[gid]? with
  | none => simp [withGroup, hg]
  | some g =>
    rw [withGroup_some hg]
    dsimp only
    rw [get_insert]
    split_ifs with hk
    · rw [← hk, hg]
      rfl
    · rfl

theorem processMessage_held {m : M.Message} :
    ((h.processMessage gid m).2.groups[k]?).isSome = (h.groups[k]?).isSome := by
  by_cases hr : ∃ g pm, h.groups[gid]? = some g ∧ M.tryIntoProtocolMessage m = .ok pm
  · obtain ⟨g, pm, hg, ht⟩ := hr
    rw [(processMessage_received hg ht).2.1, get_insert]
    split_ifs with hk
    · rw [← hk, hg]
      rfl
    · rfl
  · obtain ⟨e, he⟩ := processMessage_refused hr
    rw [he]

theorem commitPendingProposals_held {rng : ℕ} :
    ((h.commitPendingProposals gid rng).2.groups[k]?).isSome = (h.groups[k]?).isSome := by
  unfold commitPendingProposals
  split
  · rfl
  split_ifs
  · rfl
  split
  · rename_i heq
    exact (congrArg (fun w => (w.2.groups[k]?).isSome) heq).symm.trans withGroup_held
  · rename_i heq
    exact withGroup_held.trans ((congrArg (fun w => (w.2.groups[k]?).isSome) heq).symm.trans withGroup_held)

end MlsGroupHandler

namespace Node
variable {M : OpenMls} {W : Wire} {n : Node M} {env : Env} {gid k : String} {m : GroupMessage}
  {content : MessageContent}

open LocalMessageStorage

/-- The node is in the group. -/
def Holds (n : Node M) (gid : String) : Bool := (n.mls.groups[gid]?).isSome

theorem publishGroupReceipt_holds {r : GroupReadReceipt} :
    (n.publishGroupReceiptFromEventRouter W env gid r).Holds k = n.Holds k := by
  unfold publishGroupReceiptFromEventRouter
  have hheld : ((n.mls.encryptMessage gid (W.encodeGroupPayload (.receipt r)) env.rng).2.groups[k]?).isSome =
      n.Holds k := MlsGroupHandler.withGroup_held
  split
  · rename_i heq
    rw [heq] at hheld
    exact hheld
  · rename_i heq
    rw [heq] at hheld
    dsimp only
    split
    · exact hheld
    · exact hheld

theorem storeGroupContent_holds : (n.storeGroupContent W env m content).Holds k = n.Holds k := by
  unfold storeGroupContent
  dsimp only
  split_ifs
  · rfl
  unfold sendGroupDelivered
  split
  · rename_i heq
    rw [← (Prod.mk.inj heq).2]
    rfl
  · rename_i heq
    rw [publishGroupReceipt_holds, ← (Prod.mk.inj heq).2]
    rfl

theorem freezeGroup_holds {a : Option Did} : (n.freezeGroup env gid a).Holds k = n.Holds k := by
  unfold freezeGroup
  split <;> rfl

theorem handleGroupMessageContent_holds : (n.handleGroupMessageContent W env m content).Holds k = n.Holds k := by
  unfold handleGroupMessageContent
  split
  · exact freezeGroup_holds
  · split
    · rfl
    · rfl
  · exact storeGroupContent_holds

theorem handleGroupReceipt_holds {r : GroupReadReceipt} :
    (n.handleGroupReceipt env gid r).Holds k = n.Holds k := by
  by_cases hr : r.readerDid = n.localDid ∨ env.faults "group_receipts" (groupReceiptKey r) = true
  · rw [handleGroupReceipt_ignored hr]
  · obtain ⟨hne, hf⟩ := not_or.1 hr
    rw [handleGroupReceipt_stored hne (by simpa using hf)]
    rfl

theorem handleGroupPlaintext_holds {b : Bytes} : (n.handleGroupPlaintext W env m b).Holds k = n.Holds k := by
  rw [handleGroupPlaintext_eq]
  split
  · exact handleGroupReceipt_holds
  · exact handleGroupMessageContent_holds
  · rfl

theorem autoCommitProposals_holds {ms : List Did} : (n.autoCommitProposals env gid ms).2.Holds k = n.Holds k := by
  unfold autoCommitProposals
  have hheld : ((n.mls.commitPendingProposals gid env.rng).2.groups[k]?).isSome = n.Holds k :=
    MlsGroupHandler.commitPendingProposals_held
  split
  · rename_i heq
    rw [heq] at hheld
    exact hheld
  · rename_i heq
    rw [heq] at hheld
    exact hheld
  · rename_i heq
    rw [heq] at hheld
    dsimp only
    split
    · exact hheld
    · exact hheld

/-! What each listener makes of a message -/

/-- What openmls makes of the message; nothing when it is not given to it. -/
def opened (n : Node M) (gid : String) (m : GroupMessage) :
    Option (Except MsgError (Option DecryptedMessage) × MlsGroupHandler M) :=
  if m.mlsCiphertext = [] then none
  else match M.deserializeMessage m.mlsCiphertext with
    | .error _ => none
    | .ok mlsMsg => some (n.mls.processMessage gid mlsMsg)

/-- The text of an application message. -/
def text (n : Node M) (gid : String) (m : GroupMessage) : Option Bytes :=
  match n.opened gid m with
  | some (.ok (some d), _) => some d.plaintext
  | _ => none

/-- The sync listener files every text it does not have under the message's id. -/
def syncText (n : Node M) (gid : String) (m : GroupMessage) : Option Bytes :=
  if n.storage.hasGroupMessage gid m.id then none else n.text gid m

/-- The content that the sync listener caches. -/
def syncContent (n : Node M) (W : Wire) (gid : String) (m : GroupMessage) : Option MessageContent :=
  (n.syncText gid m).bind W.decodeMessageContent

def liveText (n : Node M) (W : Wire) (m : GroupMessage) : Option GroupPayload :=
  (n.text m.groupId m).bind (livePayload W)

/-- The content, if it is kept as a message: all but freezes and changes of role. -/
def kept (content : MessageContent) : Option MessageContent :=
  match content.metadata["type"]? with
  | some "admin_abandoned" => none
  | some "role_change" => none
  | _ => some content

/-- The content that the live listener keeps of a payload. -/
def keptOf : Option GroupPayload → Option MessageContent
  | some (.message content) => kept content
  | _ => none

/-- The DELIVERED of `did` for a message. -/
def deliveredBy (W : Wire) (env : Env) (did : Did) (m : GroupMessage) : GroupReadReceipt :=
  { messageId := m.id, groupId := m.groupId, readerDid := did, status := receiptDelivered
    timestamp := env.now, signature := W.signGroupReceipt did
      { messageId := m.id, groupId := m.groupId, readerDid := did
        status := receiptDelivered, timestamp := env.now, signature := [] } }

/-- The receipt that the live listener of `did` stores: another member's, or our own for what another member sent. -/
def receiptOf (W : Wire) (env : Env) (did : Did) (m : GroupMessage) : Option GroupPayload → Option GroupReadReceipt
  | some (.receipt receipt) => if receipt.readerDid = did then none else some receipt
  | some (.message content) =>
    if m.senderDid = did then none else (kept content).map fun _ => deliveredBy W env did m
  | none => none

/-- The record that a freeze or a change of role makes the live listener write, and its key. -/
def recordOf (s : LocalMessageStorage) (gid : String) : Option GroupPayload → Option (String × Group)
  | some (.message content) =>
    match content.metadata["type"]? with
    | some "admin_abandoned" => (s.fetchGroupMetadata gid).map fun group =>
        (group.id, frozenWithout group content.metadata["admin_did"]?)
    | some "role_change" =>
      match content.metadata["target_did"]?, content.metadata["new_role"]? with
      | some targetDid, some newRole => (s.fetchGroupMetadata gid).map fun group =>
          (gid, { group with members := setRole targetDid (roleOfLabel newRole) group.members })
      | _, _ => none
    | _ => none
  | _ => none

/-- The members after a handshake, and after the commit of what it proposed. -/
def settledMembers (n : Node M) (env : Env) (gid : String) (before : List Did) : List Did :=
  if n.mls.membersOrDefault gid = before then
    ((n.emit .schedulePersist).autoCommitProposals env gid (n.mls.membersOrDefault gid)).1
  else n.mls.membersOrDefault gid

/-- The message is a handshake that leaves the live listener without a place in the group. -/
def RemovesUs (n : Node M) (env : Env) (m : GroupMessage) : Prop :=
  ∃ mls, n.opened m.groupId m = some (.ok none, mls) ∧
    n.localDid ∉ settledMembers { n with mls := mls.recordProcessingSuccess m.groupId } env m.groupId
      (n.mls.membersOrDefault m.groupId)

/-! What they store -/

theorem text_of_opened {d : Option DecryptedMessage} {mls : MlsGroupHandler M}
    (h : n.opened gid m = some (.ok d, mls)) : n.text gid m = d.map (·.plaintext) := by
  rw [text, h]
  cases d with
  | none => rfl
  | some d => rfl

theorem text_of_error {e : MsgError} {mls : MlsGroupHandler M} (h : n.opened gid m = some (.error e, mls)) :
    n.text gid m = none := by
  rw [text, h]

theorem opened_held {r : Except MsgError (Option DecryptedMessage)} {mls : MlsGroupHandler M}
    (h : n.opened gid m = some (r, mls)) : (mls.groups[k]?).isSome = n.Holds k := by
  unfold opened at h
  split_ifs at h
  split at h
  · cases h
  · obtain rfl := congrArg Prod.snd (Option.some.inj h)
    exact MlsGroupHandler.processMessage_held

theorem handleSyncedMessage_storage : (n.handleSyncedMessage W env gid m).2.storage =
    n.storage.filing env.faults m ((n.syncText gid m).map fun _ => m) (n.syncContent W gid m) none none := by
  unfold handleSyncedMessage syncContent syncText
  split_ifs with hhas hnil
  · rfl
  · have htext : n.text gid m = none := by simp [text, opened, hnil]
    rw [htext]
    rfl
  · cases hd : M.deserializeMessage m.mlsCiphertext with
    | error e =>
      have htext : n.text gid m = none := by simp [text, opened, hnil, hd]
      rw [htext]
      rfl
    | ok mlsMsg =>
      rcases hp : n.mls.processMessage gid mlsMsg with ⟨r, mls⟩
      have hopened : n.opened gid m = some (r, mls) := by simp [opened, hnil, hd, hp]
      rcases r with e | _ | d
      · rw [text_of_error hopened]
        dsimp only
        rw [hp]
        rfl
      · rw [text_of_opened hopened]
        dsimp only
        rw [hp]
        rfl
      · rw [text_of_opened hopened]
        dsimp only
        rw [hp]
        simp only [Option.map_some, Option.bind_some]
        cases W.decodeMessageContent d.plaintext with
        | none => rfl
        | some content => rfl

theorem handleSyncedMessage_holds : (n.handleSyncedMessage W env gid m).2.Holds k = n.Holds k := by
  rcases handleSyncedMessage_cases n W env gid m with hsame | ⟨-, pm, g, -, hg, hgs⟩
  · exact congrArg (fun t => (t[k]?).isSome) hsame
  · unfold Holds
    rw [hgs, get_insert]
    split_ifs with hk
    · rw [← hk, hg]
      rfl
    · rfl

theorem updateMemberRole_storage (s : LocalMessageStorage) (f : Faults) (d : Did) (r : GroupRole) :
    (s.updateMemberRole f gid d r).2 = { s with groupMetadata := (s.updateMemberRole f gid d r).2.groupMetadata } := by
  unfold updateMemberRole
  split
  · rfl
  · split_ifs
    · rfl
    · rfl

theorem freezeGroup_storage {a : Option Did} : (n.freezeGroup env gid a).storage =
    { n.storage with groupMetadata := (n.freezeGroup env gid a).storage.groupMetadata } := by
  unfold freezeGroup
  split <;> rfl

/-- A record to write, in the group's tree. -/
theorem put_record {s : LocalMessageStorage} {f : Faults} {k : String} {group : Group} :
    { s with groupMetadata := if f "group_metadata" k = true then s.groupMetadata
        else s.groupMetadata.insert k group } = s.filing f m none none none (some (k, group)) := by
  by_cases hf : f "group_metadata" k = true <;> simp [filing, put, treeInsert, hf]

theorem handleGroupMessageContent_storage : (n.handleGroupMessageContent W env m content).storage =
    n.storage.filing env.faults m ((keptOf (some (.message content))).map fun _ => m) (keptOf (some (.message content)))
      (receiptOf W env n.localDid m (some (.message content)))
      (recordOf n.storage m.groupId (some (.message content))) := by
  unfold keptOf receiptOf recordOf kept fetchGroupMetadata
  dsimp only
  split
  · rename_i ht
    rw [handleGroupMessageContent_abandoned ht, emit_storage, freezeGroup_storage, freezeGroup_metadata _ _ rfl]
    cases n.storage.groupMetadata[m.groupId]? with
    | none => simp [filing, put]
    | some group => simpa using put_record
  · rename_i ht
    cases hd : content.metadata["target_did"]? with
    | none =>
      rw [handleGroupMessageContent_incomplete ht fun _ _ h => by simp [hd] at h]
      simp [filing, put]
    | some targetDid =>
      cases hr : content.metadata["new_role"]? with
      | none =>
        rw [handleGroupMessageContent_incomplete ht fun _ _ _ h => by simp [hr] at h]
        simp [filing, put]
      | some newRole =>
        rw [handleGroupMessageContent_role ht hd hr, emit_storage]
        dsimp only
        rw [updateMemberRole_storage, updateMemberRole_metadata]
        cases n.storage.groupMetadata[m.groupId]? with
        | none => simp [filing, put]
        | some group => simpa using put_record
  · rename_i ha hr
    rw [handleGroupMessageContent_kept (fun h => ha h) (fun h => hr h), storeGroupContent_storage]
    split_ifs <;> rfl

/-- What the live listener stores of a text. -/
theorem handleGroupPlaintext_storage {b : Bytes} : (n.handleGroupPlaintext W env m b).storage =
    n.storage.filing env.faults m ((keptOf (livePayload W b)).map fun _ => m) (keptOf (livePayload W b))
      (receiptOf W env n.localDid m (livePayload W b)) (recordOf n.storage m.groupId (livePayload W b)) := by
  rw [handleGroupPlaintext_eq]
  cases livePayload W b with
  | none => rfl
  | some payload =>
    cases payload with
    | receipt receipt =>
      dsimp only [keptOf, receiptOf, recordOf]
      by_cases hr : receipt.readerDid = n.localDid
      · rw [handleGroupReceipt_ignored (Or.inl hr), if_pos hr]
        rfl
      · rw [if_neg hr]
        by_cases hf : env.faults "group_receipts" (groupReceiptKey receipt) = true
        · rw [handleGroupReceipt_ignored (Or.inr hf)]
          simp [filing, put, treeInsert, hf]
        · rw [handleGroupReceipt_stored hr (by simpa using hf)]
          rfl
    | message content => exact handleGroupMessageContent_storage

/-- The live listener, by what openmls makes of the message. -/
theorem handleGroupMessage_eq (n : Node M) (W : Wire) (env : Env) (m : GroupMessage) :
    match n.opened m.groupId m with
    | none => n.Idle (n.handleGroupMessage W env m)
    | some (.error _, mls) => Idle { n with mls := mls } (n.handleGroupMessage W env m)
    | some (.ok (some d), mls) => n.handleGroupMessage W env m =
        (handleGroupPlaintext { n with mls := mls.recordProcessingSuccess m.groupId } W env m d.plaintext).emit
          .schedulePersist
    | some (.ok none, mls) => n.handleGroupMessage W env m =
        afterHandshake { n with mls := mls.recordProcessingSuccess m.groupId } env m.groupId
          (n.mls.membersOrDefault m.groupId) := by
  unfold handleGroupMessage opened
  by_cases hnil : m.mlsCiphertext = []
  · rw [if_pos hnil, if_pos hnil]
    exact .refl n
  rw [if_neg hnil, if_neg hnil]
  cases M.deserializeMessage m.mlsCiphertext with
  | error e => exact idle_recordLiveFailure
  | ok mlsMsg =>
    dsimp only
    rcases n.mls.processMessage m.groupId mlsMsg with ⟨e | _ | d, mls⟩
    · exact idle_recordLiveFailure
    · rfl
    · rfl

/-- What comes after a handshake hangs on the members it leaves. -/
theorem afterHandshake_eq (n : Node M) (env : Env) (gid : String) (before : List Did) :
    ∃ n' : Node M, n'.localDid = n.localDid ∧ n'.storage = n.storage ∧ n'.Holds gid = n.Holds gid ∧
      n.afterHandshake env gid before = n'.settleMembers env gid before (n.settledMembers env gid before) := by
  unfold afterHandshake settledMembers
  dsimp only
  rw [emit_mls]
  split_ifs
  · refine ⟨((n.emit .schedulePersist).autoCommitProposals env gid (n.mls.membersOrDefault gid)).2, ?_,
      autoCommitProposals_storage.trans rfl, autoCommitProposals_holds.trans rfl, rfl⟩
    unfold autoCommitProposals
    split
    · rfl
    · rfl
    · dsimp only
      split <;> rfl
  · exact ⟨n.emit .schedulePersist, rfl, rfl, rfl, rfl⟩

theorem handleGroupMessage_removed (h : n.RemovesUs env m) :
    (n.handleGroupMessage W env m).Holds m.groupId = false := by
  obtain ⟨mls, ho, hout⟩ := h
  have heq := n.handleGroupMessage_eq W env m
  rw [ho] at heq
  dsimp only at heq
  obtain ⟨n', hl, -, -, hafter⟩ := afterHandshake_eq { n with mls := mls.recordProcessingSuccess m.groupId } env
    m.groupId (n.mls.membersOrDefault m.groupId)
  rw [heq, hafter]
  exact Option.isSome_eq_false_iff.2 (Option.isNone_iff_eq_none.2
    (n'.settleMembers_out env m.groupId (by rw [hl]; exact hout)))

/-- The live listener, as long as we stay in the group. -/
theorem handleGroupMessage_stays (h : ¬ n.RemovesUs env m) :
    (n.handleGroupMessage W env m).storage = n.storage.filing env.faults m
        ((keptOf (n.liveText W m)).map fun _ => m) (keptOf (n.liveText W m))
        (receiptOf W env n.localDid m (n.liveText W m)) (recordOf n.storage m.groupId (n.liveText W m)) ∧
      (n.handleGroupMessage W env m).Holds m.groupId = n.Holds m.groupId := by
  have heq := n.handleGroupMessage_eq W env m
  cases ho : n.opened m.groupId m with
  | none =>
    rw [ho] at heq
    have ht : n.liveText W m = none := by simp [liveText, text, ho]
    rw [ht, heq.2.1]
    exact ⟨rfl, congrArg (fun t => (t[m.groupId]?).isSome) heq.2.2.2⟩
  | some w =>
    obtain ⟨r, mls⟩ := w
    rw [ho] at heq
    have hheld := opened_held (k := m.groupId) ho
    rcases r with e | _ | d
    · have ht : n.liveText W m = none := by simp [liveText, text_of_error ho]
      rw [ht, heq.2.1]
      exact ⟨rfl, (congrArg (fun t => (t[m.groupId]?).isSome) heq.2.2.2).trans hheld⟩
    · have ht : n.liveText W m = none := by simp [liveText, text_of_opened ho]
      have hin := not_not.1 fun hout => h ⟨mls, ho, hout⟩
      obtain ⟨n', hl, hs, hn', hafter⟩ := afterHandshake_eq { n with mls := mls.recordProcessingSuccess m.groupId }
        env m.groupId (n.mls.membersOrDefault m.groupId)
      dsimp only at heq
      rw [ht, heq, hafter]
      obtain ⟨hstored, hmls⟩ := n'.settleMembers_in env m.groupId (by rw [hl]; exact hin)
      refine ⟨hstored.trans hs, ?_⟩
      rw [Holds, hmls, ← Holds, hn', Holds, recordProcessingSuccess_groups]
      exact hheld
    · have ht : n.liveText W m = livePayload W d.plaintext := by simp [liveText, text_of_opened ho]
      dsimp only at heq
      rw [ht, heq]
      refine ⟨handleGroupPlaintext_storage, handleGroupPlaintext_holds.trans ?_⟩
      unfold Holds
      rw [recordProcessingSuccess_groups]
      exact hheld

theorem holds_of_opened {d : Option DecryptedMessage} {mls : MlsGroupHandler M}
    (h : n.opened gid m = some (.ok d, mls)) : n.Holds gid = true := by
  unfold opened at h
  split_ifs at h
  split at h
  · cases h
  rename_i mlsMsg hd
  by_cases hr : ∃ g pm, n.mls.groups[gid]? = some g ∧ M.tryIntoProtocolMessage mlsMsg = .ok pm
  · obtain ⟨g, -, hg, -⟩ := hr
    exact Option.isSome_iff_exists.2 ⟨g, hg⟩
  · obtain ⟨e, he⟩ := MlsGroupHandler.processMessage_refused hr
    rw [he] at h
    cases h

/-! Side by side -/

/-- As far as the group is concerned the same is kept: the stores, and whether we are in it. -/
structure SameDurable (gid : String) (n n' : Node M) : Prop where
  stored : n.storage = n'.storage
  held : n.Holds gid = n'.Holds gid

/-- The condition on a message, as the two listeners come to it: what the two write comes to the same, and it does not
remove us. -/
structure Alike (W : Wire) (env : Env) (m : GroupMessage) (sync live : Node M) : Prop where
  filed : Agree env.faults "group_messages" m.key live.storage.groupMessages
    ((sync.syncText m.groupId m).map fun _ => m) ((keptOf (live.liveText W m)).map fun _ => m)
  cached : Agree env.faults "group_plaintext_cache" m.id live.storage.groupPlaintext
    (sync.syncContent W m.groupId m) (keptOf (live.liveText W m))
  receipt : ∀ r, receiptOf W env live.localDid m (live.liveText W m) = some r →
    Agree env.faults "group_receipts" (groupReceiptKey r) live.storage.groupReceipts none (some r)
  record : ∀ k group, recordOf live.storage m.groupId (live.liveText W m) = some (k, group) →
    Agree env.faults "group_metadata" k live.storage.groupMetadata none (some group)
  stays : ¬ live.RemovesUs env m

/-- One message, for two nodes that keep the same. -/
theorem sameDurable_iff {sync live : Node M} (h : SameDurable m.groupId sync live) :
    SameDurable m.groupId (sync.handleSyncedMessage W env m.groupId m).2 (live.handleGroupMessage W env m) ↔
      Alike W env m sync live := by
  by_cases hr : live.RemovesUs env m
  · refine iff_of_false (fun hs => ?_) fun ha => ha.stays hr
    have hheld := hs.held
    rw [handleGroupMessage_removed hr, handleSyncedMessage_holds, h.held] at hheld
    obtain ⟨mls, ho, -⟩ := hr
    rw [holds_of_opened ho] at hheld
    cases hheld
  · obtain ⟨hstored, hholds⟩ := live.handleGroupMessage_stays (W := W) hr
    constructor
    · intro hs
      have heq := hs.stored
      rw [handleSyncedMessage_storage, hstored, h.stored] at heq
      obtain ⟨hfiled, hcached, hreceipt, hrecord⟩ := filing_eq_iff.1 heq
      exact ⟨hfiled, hcached, hreceipt, hrecord, hr⟩
    · intro ha
      refine ⟨?_, handleSyncedMessage_holds.trans (h.held.trans hholds.symm)⟩
      rw [handleSyncedMessage_storage, hstored, h.stored]
      exact filing_eq_iff.2 ⟨ha.filed, ha.cached, ha.receipt, ha.record⟩

/-! A batch -/

/-- The messages one by one through the live listener. -/
def handleLive (n : Node M) (W : Wire) (messages : List (Env × GroupMessage)) : Node M :=
  messages.foldl (fun n x => n.handleGroupMessage W x.1 x.2) n

/-- The condition on a batch: it holds at each message, with both nodes as they are by then. -/
def AlikeAll (W : Wire) (gid : String) : Node M → Node M → List (Env × GroupMessage) → Prop
  | _, _, [] => True
  | sync, live, x :: xs => Alike W x.1 x.2 sync live ∧
    AlikeAll W gid (sync.handleSyncedMessage W x.1 gid x.2).2 (live.handleGroupMessage W x.1 x.2) xs

/-- The sync listener's messages one by one: scheduling a persist stores nothing. -/
theorem handleSyncReceived_one (n : Node M) (W : Wire) (gid : String) (xs : List (Env × GroupMessage)) :
    (n.handleSyncReceived W gid xs).storage =
        (xs.foldl (fun n x => (n.handleSyncedMessage W x.1 gid x.2).2) n).storage ∧
      (n.handleSyncReceived W gid xs).Holds gid =
        (xs.foldl (fun n x => (n.handleSyncedMessage W x.1 gid x.2).2) n).Holds gid := by
  have hfold (k : ℕ) (n : Node M) : (xs.foldl (fun acc x =>
      let r := acc.2.handleSyncedMessage W x.1 gid x.2
      (if r.1 then acc.1 + 1 else acc.1, r.2)) (k, n)).2 =
        xs.foldl (fun n x => (n.handleSyncedMessage W x.1 gid x.2).2) n := by
    induction xs generalizing k n with
    | nil => rfl
    | cons x xs ih =>
      rw [List.foldl_cons, List.foldl_cons]
      exact ih _ _
  unfold handleSyncReceived
  dsimp only
  split
  · rw [Holds, emit_storage, emit_mls, hfold]
    exact ⟨rfl, rfl⟩
  · rw [hfold]
    exact ⟨rfl, rfl⟩

/-- From two nodes that keep the same: after each message of a batch they do, if and only if each message comes to the
same. -/
theorem sameDurable_all_iff {sync live : Node M} (xs : List (Env × GroupMessage))
    (hxs : ∀ x ∈ xs, x.2.groupId = gid) (h : SameDurable gid sync live) :
    (∀ k, SameDurable gid ((xs.take k).foldl (fun n x => (n.handleSyncedMessage W x.1 gid x.2).2) sync)
      (live.handleLive W (xs.take k))) ↔ AlikeAll W gid sync live xs := by
  induction xs generalizing sync live with
  | nil => simpa [AlikeAll, handleLive] using h
  | cons x xs ih =>
    obtain rfl := hxs x (by simp)
    have hxs' : ∀ y ∈ xs, y.2.groupId = x.2.groupId := fun y hy => hxs y (by simp [hy])
    constructor
    · intro hall
      have hone : Alike W x.1 x.2 sync live := (sameDurable_iff h).1 (hall 1)
      exact ⟨hone, (ih hxs' ((sameDurable_iff h).2 hone)).1 fun k => hall (k + 1)⟩
    · rintro ⟨hone, hall⟩ k
      cases k with
      | zero => exact h
      | succ k => exact (ih hxs' ((sameDurable_iff h).2 hone)).2 hall k

/-- A text without an envelope that we sent ourselves is filed and cached by both. -/
theorem alike_own {b : Bytes} (ht : n.text m.groupId m = some b) (hlive : livePayload W b = some (.message content))
    (hk : kept content = some content) (hsync : W.decodeMessageContent b = some content)
    (hown : m.senderDid = n.localDid) (hnew : n.storage.hasGroupMessage m.groupId m.id = false) :
    Alike W env m n n := by
  have hl : n.liveText W m = some (.message content) := by simp [liveText, ht, hlive]
  have hs : n.syncText m.groupId m = some b := by simp [syncText, hnew, ht]
  have hkept : keptOf (n.liveText W m) = some content := by rw [hl]; exact hk
  have hcached : n.syncContent W m.groupId m = some content := by rw [syncContent, hs]; exact hsync
  refine ⟨?_, ?_, fun r hr => ?_, fun k group hg => ?_, ?_⟩
  · rw [hs, hkept]
    exact Or.inr rfl
  · rw [hcached, hkept]
    exact Or.inr rfl
  · rw [hl, receiptOf, if_pos hown] at hr
    cases hr
  · rw [hl] at hg
    unfold kept at hk
    unfold recordOf at hg
    dsimp only at hg
    split at hg
    · rename_i ht
      rw [ht] at hk
      cases hk
    · rename_i ht
      rw [ht] at hk
      cases hk
    · cases hg
  · rintro ⟨mls, ho, -⟩
    rw [text_of_opened ho] at ht
    cases ht

end Node

namespace SyncRefinement
open IdealGroup

/-- `did:c` has read the message "m". -/
def read : GroupReadReceipt :=
  { messageId := "m", groupId := "g", readerDid := "did:c", status := receiptRead, timestamp := 0, signature := [] }

def receiptMessage : GroupMessage := sent "did:c" "did:c" (idealWire.encodeGroupPayload (.receipt read))

def hello : MessageContent := { text := "hello", attachments := [], mentions := [], replyTo := none, metadata := ∅ }

def bare : GroupMessage := sent "did:b" "did:a" (idealWire.encodeMessageContent hello)

end SyncRefinement
end Variance
