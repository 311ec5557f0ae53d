import Variance.Spec.Events

/-! What a client can ask of a group beside the operations of `Op`: reactions and read receipts (`api/groups.rs`), and
a message sent over the WebSocket (`websocket.rs`). -/

namespace Variance

def LocalMessageStorage.storeGroupLastReadAt (s : LocalMessageStorage) (f : Faults) (ourDid : Did) (groupId : String)
    (timestamp : ℤ) : Except MsgError Unit × LocalMessageStorage :=
  let w := treeInsert f "last_read_at" (groupLastReadKey ourDid groupId) timestamp s.lastReadAt
  (w.1, { s with lastReadAt := w.2 })

namespace Node
variable {M : OpenMls}

def reactionContent (messageId emoji action : String) : MessageContent :=
  .control [("type", "reaction"), ("message_id", messageId), ("emoji", emoji), ("action", action)]

def addGroupReaction (n : Node M) (W : Wire) (env : Env) (groupId messageId emoji : String) :
    Except AppError Unit × Node M :=
  if emoji = "" ∨ 8 < emoji.utf8ByteSize then (.error (.badRequest "emoji must be 1–8 characters"), n)
  else n.sendGroupContent W env groupId (reactionContent messageId emoji "add") true

def removeGroupReaction (n : Node M) (W : Wire) (env : Env) (groupId messageId emoji : String) :
    Except AppError Unit × Node M :=
  n.sendGroupContent W env groupId (reactionContent messageId emoji "remove") true

/-- The arm `SendGroupMessage` of `handle_client_message`: a bare content, encrypted and published as it is. -/
def wsSendGroupMessage (n : Node M) (W : Wire) (env : Env) (groupId text : String) (replyTo : Option String) :
    Node M :=
  let content : MessageContent := { text, attachments := [], mentions := [], replyTo, metadata := ∅ }
  match n.mls.encryptMessage groupId (W.encodeMessageContent content) env.rng with
  | (.error _, mls) => { n with mls }
  | (.ok mlsMsg, mls) =>
    let n := { n with mls }
    match M.serializeMessage mlsMsg with
    | .error _ => n
    | .ok bytes =>
      let message : GroupMessage :=
        { id := env.ulid, senderDid := n.localDid, groupId := groupId, timestamp := env.now,
          type := 1, replyTo, mlsCiphertext := bytes }
      let n := n.emit (.publish (groupTopic groupId) message)
      let n := n.store fun s => s.storeGroup env.faults message
      let n := n.store fun s => s.storeGroupLastReadAt env.faults n.localDid groupId env.now
      n.emit (.ws (.groupMessageReceived groupId n.localDid env.ulid env.now))

/-- openmls makes a message of the bytes, and it serializes. -/
def Encrypts (n : Node M) (gid : String) (b : Bytes) (rng : ℕ) : Prop :=
  ∃ m bytes, (n.mls.encryptMessage gid b rng).1 = .ok m ∧ M.serializeMessage m = .ok bytes

/-- `receipts.send_group_read`: sign and store our own READ receipt. -/
def sendGroupRead (n : Node M) (W : Wire) (env : Env) (groupId messageId : String) :
    Except MsgError GroupReadReceipt × Node M :=
  let receipt : GroupReadReceipt :=
    { messageId, groupId, readerDid := n.localDid, status := receiptRead, timestamp := env.now, signature := [] }
  let receipt := { receipt with signature := W.signGroupReceipt n.localDid receipt }
  let w := n.storage.storeGroupReceipt env.faults receipt
  (w.1.map fun _ => receipt, { n with storage := w.2 })

/-- `publish_group_receipt`, of which the event router has a copy. -/
def publishGroupReceipt (n : Node M) (W : Wire) (env : Env) (groupId : String) (receipt : GroupReadReceipt) : Node M :=
  n.publishGroupReceiptFromEventRouter W env groupId receipt

/-- The messages in turn; a receipt that cannot be stored ends the request. -/
def readMessages (W : Wire) (groupId : String) : List (Env × String) → Node M → Except AppError Unit × Node M
  | [], n => (.ok (), n)
  | (env, messageId) :: rest, n =>
    match n.sendGroupRead W env groupId messageId with
    | (.error e, n) => (.error (.wrap "Failed to create group read receipt" e), n)
    | (.ok receipt, n) => readMessages W groupId rest (n.publishGroupReceipt W env groupId receipt)

def sendGroupReadReceipts (n : Node M) (W : Wire) (groupId : String) (messageIds : List (Env × String)) :
    Except AppError Unit × Node M :=
  if messageIds = [] then (.error (.badRequest "message_ids must not be empty"), n)
  else readMessages W groupId messageIds n

end Node

/-- What happens to a node's groups, the requests above among it. -/
inductive ClientEvent
  | event (e : Event)
  | addGroupReaction (env : Env) (groupId messageId emoji : String)
  | removeGroupReaction (env : Env) (groupId messageId emoji : String)
  | wsSendGroupMessage (env : Env) (groupId text : String) (replyTo : Option String)
  | sendGroupReadReceipts (groupId : String) (messageIds : List (Env × String))

def Node.serve {M : OpenMls} (W : Wire) (n : Node M) : ClientEvent → Node M
  | .event e => n.react W e
  | .addGroupReaction env groupId messageId emoji => (n.addGroupReaction W env groupId messageId emoji).2
  | .removeGroupReaction env groupId messageId emoji => (n.removeGroupReaction W env groupId messageId emoji).2
  | .wsSendGroupMessage env groupId text replyTo => n.wsSendGroupMessage W env groupId text replyTo
  | .sendGroupReadReceipts groupId messageIds => (n.sendGroupReadReceipts W groupId messageIds).2

def clientSys (M : OpenMls) (W : Wire) : StepSystem.Sys (Node M) ClientEvent where
  init := Node.Fresh
  step n e := n.serve W e

/-! A frozen group -/

def Node.Frozen {M : OpenMls} (n : Node M) (gid : String) : Prop :=
  ∃ group, n.storage.fetchGroupMetadata gid = some group ∧ group.frozen = true

/-- A message of type TEXT to the group: content, a reaction, an edit, or a notice that goes out the same way. -/
def Effect.Speaks (gid : String) : Effect → Prop
  | .publish topic m => topic = groupTopic gid ∧ m.type = 1
  | _ => False

namespace ClientEvent

/-- A call that is to send to the group, to invite or kick a member, or to change a role. -/
def Changes (gid : String) : ClientEvent → Prop
  | .event (.op (.send _ g _ _ _)) => g = gid
  | .event (.op (.invite _ _ g _)) => g = gid
  | .event (.op (.removeMember _ g _)) => g = gid
  | .event (.op (.changeRole _ g _ _)) => g = gid
  | _ => False

/-- An API or WebSocket call on the group that does not delete or reinitialise it, or an inbound group message. -/
def On (gid : String) : ClientEvent → Prop
  | .event (.op (.send _ g _ _ _)) => g = gid
  | .event (.op (.invite _ _ g _)) => g = gid
  | .event (.op (.removeMember _ g _)) => g = gid
  | .event (.op (.changeRole _ g _ _)) => g = gid
  | .event (.op (.decline _ g)) => g = gid
  | .event (.op (.leave _ g)) => g = gid
  | .event (.op (.abandon _ g)) => g = gid
  | .event (.op (.accept ..)) => True
  | .event (.op (.acceptWelcome ..)) => True
  | .event (.op (.group ..)) => True
  | .event (.op (.sync ..)) => True
  | .addGroupReaction _ g _ _ => g = gid
  | .removeGroupReaction _ g _ _ => g = gid
  | .wsSendGroupMessage _ g _ _ => g = gid
  | .sendGroupReadReceipts g _ => g = gid
  | _ => False

end ClientEvent

/-- The step leaves the group inert: it is refused, or publishes no content, moves nobody in or out of the metadata
and changes no role in it; and as long as there is metadata, it says frozen. The farewell of an abandon is no content. -/
structure Node.Inert {M : OpenMls} (W : Wire) (gid : String) (n : Node M) (e : ClientEvent) : Prop where
  refused : e.Changes gid → n.serve W e = n
  silent : ∃ es, (n.serve W e).effects = n.effects ++ es ∧
    ∀ x ∈ es, x.Speaks gid → ∃ env, e = .event (.op (.abandon env gid))
  members : ∀ group, (n.serve W e).storage.fetchGroupMetadata gid = some group →
    ∃ before, n.storage.fetchGroupMetadata gid = some before ∧ group.members = before.members
  frozen : ∀ group, (n.serve W e).storage.fetchGroupMetadata gid = some group → group.frozen = true

end Variance
