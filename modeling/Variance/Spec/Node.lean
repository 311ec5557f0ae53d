import Variance.Spec.Mls
import Variance.Spec.Storage

/-! The group half of a running node: `AppState` as the handlers and the event
router see it. What a handler tells the rest of the program (the frontend, the P2P loop,
the debounced persister) is appended to `effects`; `Env` is what it reads from outside:
the clock, fresh ids, the RNG, the store's failures, and whether an Olm session to the
addressee could be had. -/

namespace Variance

/-- `WsMessage`, the variants the modelled code broadcasts. -/
inductive WsMessage
  | groupInvitationReceived (groupId groupName : String) (inviterDid : Did)
  | groupInvitationAccepted (groupId : String) (inviteeDid : Did)
  | groupInvitationDeclined (groupId : String) (inviteeDid : Did)
  | groupInvitationExpired (groupId : String) (inviteeDid : Did)
  | groupFrozen (groupId : String)
  | roleChanged (groupId : String) (targetDid : Did) (newRole : String) (changedBy : Did)
  | groupMessageReceived (groupId : String) (from_ : Did) (messageId : String) (timestamp : ℤ)
  | groupReceiptRead (groupId messageId : String) (memberDid : Did)
  | groupReceiptDelivered (groupId messageId : String) (memberDid : Did)
  | groupMemberRemoved (groupId : String) (memberDid : Did)
  | mlsGroupRemoved (groupId reason : String)
  | groupDesyncDetected (groupId : String)
  | groupReinitialized (oldGroupId newGroupId : String)
  | directMessageReceived (from_ : Did) (messageId text : String) (timestamp : ℤ)
deriving DecidableEq

inductive Effect
  | ws (m : WsMessage)
  | publish (topic : String) (m : GroupMessage)
  | subscribe (topic : String)
  | unsubscribe (topic : String)
  | updateMlsKeyPackage (keyPackage : Bytes)
  | schedulePersist
  | sendDm (recipient : Did) (content : MessageContent)
  | deliveredReceipt (recipient : Did) (messageId : String)
deriving DecidableEq

/-- What a step reads from outside the node. -/
structure Env where
  now : ℤ
  rng : ℕ
  ulid : String
  faults : Faults
  /-- `ensure_olm_session` and `send_message` both succeed. -/
  dmOk : Bool

structure Node (M : OpenMls) where
  localDid : Did
  mls : MlsGroupHandler M
  storage : LocalMessageStorage
  effects : List Effect

/-- The codecs of the messages that travel as bytes, `hex` and `prost`, and the ed25519
signatures of a did. -/
structure Wire where
  hexEncode : Bytes → String
  hexDecode : String → Option Bytes
  encodeInvitation : GroupInvitation → Bytes
  decodeInvitation : Bytes → Option GroupInvitation
  encodeGroupPayload : GroupPayload → Bytes
  /-- `GroupPayload::decode(..).ok().and_then(|p| p.payload)`. -/
  decodeGroupPayload : Bytes → Option GroupPayload
  encodeMessageContent : MessageContent → Bytes
  decodeMessageContent : Bytes → Option MessageContent
  sign : Did → Bytes → Bytes
  signGroupReceipt : Did → GroupReadReceipt → Bytes

def groupTopic (groupId : String) : String := "/variance/group/" ++ groupId

namespace Node
variable {M : OpenMls}

def emit (n : Node M) (e : Effect) : Node M := { n with effects := n.effects ++ [e] }

/-- Run a storage operation whose failure is only logged. -/
def store (n : Node M)
    (op : LocalMessageStorage → Except MsgError Unit × LocalMessageStorage) : Node M :=
  { n with storage := (op n.storage).2 }

section
variable (n : Node M) (e : Effect)
  (op : LocalMessageStorage → Except MsgError Unit × LocalMessageStorage)

@[simp] theorem emit_mls : (n.emit e).mls = n.mls := rfl
@[simp] theorem emit_storage : (n.emit e).storage = n.storage := rfl
@[simp] theorem emit_localDid : (n.emit e).localDid = n.localDid := rfl
@[simp] theorem emit_effects : (n.emit e).effects = n.effects ++ [e] := rfl
@[simp] theorem store_mls : (n.store op).mls = n.mls := rfl
@[simp] theorem store_storage : (n.store op).storage = (op n.storage).2 := rfl
@[simp] theorem store_localDid : (n.store op).localDid = n.localDid := rfl
@[simp] theorem store_effects : (n.store op).effects = n.effects := rfl
end

/-- `mls_groups.generate_key_package()`, serialized and handed to the P2P loop. The leave and
kick paths schedule a persist after it, the accept path does not. -/
def refreshKeyPackage (n : Node M) (env : Env) (persist : Bool) : Node M :=
  match n.mls.generateKeyPackage env.rng with
  | (.error _, mls) => { n with mls }
  | (.ok kp, mls) =>
    let n := { n with mls }
    match M.serializeKeyPackage kp with
    | .error _ => n
    | .ok bytes =>
      let n := n.emit (.updateMlsKeyPackage bytes)
      if persist then n.emit .schedulePersist else n

/-- Delete every trace of a group but its MLS state: the leave, abandon and delete handlers. -/
def purgeGroup (n : Node M) (env : Env) (groupId : String) : Node M :=
  (((n.store fun s => s.deleteGroupMessages env.faults groupId).store
    fun s => s.deleteGroupMetadata env.faults groupId).store
    fun s => s.deleteGroupLastReadAt env.faults n.localDid groupId).store
    fun s => s.deleteAllOutboundInvitesForGroup env.faults groupId

end Node

end Variance
