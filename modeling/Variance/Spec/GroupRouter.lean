import Variance.Spec.Invites

/-! Inbound group messages (`event_router/messaging.rs`): the live GossipSub listener, and the
listener for a batch another member served after a reconnect. -/

namespace Variance
namespace Node
variable {M : OpenMls}

/-- `persist_group_plaintext`, the at-rest encryption left out. -/
def persistGroupPlaintext (n : Node M) (env : Env) (messageId : String) (content : MessageContent) :
    Node M :=
  n.store fun s => s.storeGroupPlaintext env.faults messageId content

/-- `receipts.send_group_delivered`: sign and store our own DELIVERED receipt. -/
def sendGroupDelivered (n : Node M) (W : Wire) (env : Env) (groupId messageId : String) :
    Except MsgError GroupReadReceipt × Node M :=
  let receipt : GroupReadReceipt :=
    { messageId, groupId, readerDid := n.localDid, status := receiptDelivered,
      timestamp := env.now, signature := [] }
  let receipt := { receipt with signature := W.signGroupReceipt n.localDid receipt }
  let w := n.storage.storeGroupReceipt env.faults receipt
  (w.1.map fun _ => receipt, { n with storage := w.2 })

/-- Encrypt a receipt to the group and publish it; a failure is only logged. -/
def publishGroupReceiptFromEventRouter (n : Node M) (W : Wire) (env : Env) (groupId : String)
    (receipt : GroupReadReceipt) : Node M :=
  match n.mls.encryptMessage groupId (W.encodeGroupPayload (.receipt receipt)) env.rng with
  | (.error _, mls) => { n with mls }
  | (.ok mlsMsg, mls) =>
    let n := { n with mls }
    match M.serializeMessage mlsMsg with
    | .error _ => n
    | .ok bytes =>
      (n.emit (.publish (groupTopic groupId)
        { id := env.ulid, senderDid := n.localDid, groupId := groupId, timestamp := env.now,
          type := 0, replyTo := none, mlsCiphertext := bytes })).emit .schedulePersist

def roleOfLabel (newRole : String) : GroupRole :=
  if newRole = "admin" then GroupRole.admin
  else if newRole = "moderator" then GroupRole.moderator
  else GroupRole.member

/-- The group is marked frozen and the departed admin struck from the members. -/
def freezeGroup (n : Node M) (env : Env) (groupId : String) (adminDid : Option Did) : Node M :=
  match n.storage.fetchGroupMetadata groupId with
  | none => n
  | some groupMeta =>
    n.store fun s => s.storeGroupMetadata env.faults
      { groupMeta with
        frozen := true
        members := match adminDid with
          | some did => groupMeta.members.filter fun m => m.did ≠ did
          | none => groupMeta.members }

/-- Store, cache the plaintext, notify, and answer another member's message with DELIVERED. -/
def storeGroupContent (n : Node M) (W : Wire) (env : Env) (message : GroupMessage)
    (content : MessageContent) : Node M :=
  let n := n.store fun s => s.storeGroup env.faults message
  let n := n.persistGroupPlaintext env message.id content
  let n := n.emit
    (.ws (.groupMessageReceived message.groupId message.senderDid message.id message.timestamp))
  if message.senderDid = n.localDid then n
  else match n.sendGroupDelivered W env message.groupId message.id with
    | (.error _, n) => n
    | (.ok receipt, n) => n.publishGroupReceiptFromEventRouter W env message.groupId receipt

def handleGroupMessageContent (n : Node M) (W : Wire) (env : Env) (message : GroupMessage)
    (content : MessageContent) : Node M :=
  match content.metadata["type"]? with
  | some "admin_abandoned" =>
    (n.freezeGroup env message.groupId content.metadata["admin_did"]?).emit
      (.ws (.groupFrozen message.groupId))
  | some "role_change" =>
    match content.metadata["target_did"]?, content.metadata["new_role"]? with
    | some targetDid, some newRole =>
      emit { n with storage :=
          (n.storage.updateMemberRole env.faults message.groupId targetDid (roleOfLabel newRole)).2 }
        (.ws (.roleChanged message.groupId targetDid newRole message.senderDid))
    | _, _ => n
  | _ => n.storeGroupContent W env message content

/-- An inbound receipt, unless it is our own. -/
def handleGroupReceipt (n : Node M) (env : Env) (groupId : String) (receipt : GroupReadReceipt) :
    Node M :=
  if receipt.readerDid = n.localDid then n
  else match n.storage.storeGroupReceipt env.faults receipt with
    | (.error _, _) => n
    | (.ok (), storage) =>
      emit { n with storage } (.ws (if receipt.status = receiptRead
        then .groupReceiptRead groupId receipt.messageId receipt.readerDid
        else .groupReceiptDelivered groupId receipt.messageId receipt.readerDid))

/-- The decrypted payload: the `GroupPayload` envelope first, a bare `MessageContent` otherwise. -/
def handleGroupPlaintext (n : Node M) (W : Wire) (env : Env) (message : GroupMessage)
    (plaintext : Bytes) : Node M :=
  match W.decodeGroupPayload plaintext with
  | some (.receipt receipt) => n.handleGroupReceipt env message.groupId receipt
  | some (.message content) => n.handleGroupMessageContent W env message content
  | none =>
    match W.decodeMessageContent plaintext with
    | some content => n.handleGroupMessageContent W env message content
    | none => n

/-- The member list did not change, so a proposal was stored: commit it and publish the commit.
Returns the members to compare with, taken anew only when a commit was made. -/
def autoCommitProposals (n : Node M) (env : Env) (groupId : String) (membersAfter : List Did) :
    List Did × Node M :=
  match n.mls.commitPendingProposals groupId env.rng with
  | (.error _, mls) => (membersAfter, { n with mls })
  | (.ok none, mls) => (membersAfter, { n with mls })
  | (.ok (some commitMsg), mls) =>
    let n := emit { n with mls } .schedulePersist
    (n.mls.membersOrDefault groupId,
      match M.serializeMessage commitMsg with
      | .error _ => n
      | .ok bytes =>
        n.emit (.publish (groupTopic groupId)
          { id := env.ulid, senderDid := n.localDid, groupId := groupId, timestamp := env.now,
            type := 0, replyTo := none, mlsCiphertext := bytes }))

/-- The local member is no longer in the group. -/
def cleanUpAfterRemoval (n : Node M) (env : Env) (groupId : String) : Node M :=
  let n := n.emit (.unsubscribe (groupTopic groupId))
  let n := emit { n with mls := n.mls.removeGroup groupId } .schedulePersist
  let n := ((((n.store fun s => s.deleteGroupMetadata env.faults groupId).store
    fun s => s.deleteGroupMessages env.faults groupId).store
    fun s => s.deleteGroupLastReadAt env.faults n.localDid groupId).store
    fun s => s.deleteAllOutboundInvitesForGroup env.faults groupId)
  let n := n.emit (.ws (.mlsGroupRemoved groupId "kicked"))
  n.refreshKeyPackage env true

/-- Tell the frontend who went, or clean up when that was the local member. -/
def settleMembers (n : Node M) (env : Env) (groupId : String) (membersBefore membersAfter : List Did) :
    Node M :=
  if n.localDid ∈ membersAfter then
    (membersBefore.filter fun m => m ∉ membersAfter).foldl
      (fun n did => n.emit (.ws (.groupMemberRemoved groupId did))) n
  else n.cleanUpAfterRemoval env groupId

/-- A commit or a proposal went through; `membersBefore` was taken before it did. -/
def afterHandshake (n : Node M) (env : Env) (groupId : String) (membersBefore : List Did) : Node M :=
  let n := n.emit .schedulePersist
  let membersAfter := n.mls.membersOrDefault groupId
  if membersAfter = membersBefore then
    let w := n.autoCommitProposals env groupId membersAfter
    w.2.settleMembers env groupId membersBefore w.1
  else n.settleMembers env groupId membersBefore membersAfter

/-- `record_processing_failure`, with the desync notice when the threshold is crossed. -/
def recordLiveFailure (n : Node M) (groupId : String) : Node M :=
  match n.mls.recordProcessingFailure groupId with
  | (true, mls) => emit { n with mls } (.ws (.groupDesyncDetected groupId))
  | (false, mls) => { n with mls }

/-- One message of the live listener. -/
def handleGroupMessage (n : Node M) (W : Wire) (env : Env) (message : GroupMessage) : Node M :=
  if message.mlsCiphertext = [] then n
  else
    let membersBefore := n.mls.membersOrDefault message.groupId
    match M.deserializeMessage message.mlsCiphertext with
    | .error _ => n.recordLiveFailure message.groupId
    | .ok mlsMsg =>
      match n.mls.processMessage message.groupId mlsMsg with
      | (.error _, mls) => recordLiveFailure { n with mls } message.groupId
      | (.ok (some decrypted), mls) =>
        (handleGroupPlaintext { n with mls := mls.recordProcessingSuccess message.groupId } W env
          message decrypted.plaintext).emit .schedulePersist
      | (.ok none, mls) =>
        afterHandshake { n with mls := mls.recordProcessingSuccess message.groupId } env
          message.groupId membersBefore

/-- One message of a `SyncReceived` batch, and whether it counts as new. -/
def handleSyncedMessage (n : Node M) (W : Wire) (env : Env) (groupId : String)
    (message : GroupMessage) : Bool × Node M :=
  if n.storage.hasGroupMessage groupId message.id then (false, n)
  else if message.mlsCiphertext = [] then (false, n)
  else match M.deserializeMessage message.mlsCiphertext with
    | .error _ => (false, n)
    | .ok mlsMsg =>
      match n.mls.processMessage groupId mlsMsg with
      | (.error _, mls) => (false, { n with mls := (mls.recordProcessingFailure groupId).2 })
      | (.ok none, mls) => (false, { n with mls := mls.recordProcessingSuccess groupId })
      | (.ok (some decrypted), mls) =>
        let n := { n with mls := mls.recordProcessingSuccess groupId }
        let n := n.store fun s => s.storeGroup env.faults message
        let n := match W.decodeMessageContent decrypted.plaintext with
          | some content => n.persistGroupPlaintext env message.id content
          | none => n
        (true, n.emit
          (.ws (.groupMessageReceived groupId message.senderDid message.id message.timestamp)))

/-- `SyncReceived`: each message with what the step reads from outside; a persist is scheduled
only when something new was stored. -/
def handleSyncReceived (n : Node M) (W : Wire) (groupId : String)
    (messages : List (Env × GroupMessage)) : Node M :=
  let w := messages.foldl (fun acc x =>
    let r := acc.2.handleSyncedMessage W x.1 groupId x.2
    (if r.1 then acc.1 + 1 else acc.1, r.2)) (0, n)
  if 0 < w.1 then w.2.emit .schedulePersist else w.2

end Node
end Variance
