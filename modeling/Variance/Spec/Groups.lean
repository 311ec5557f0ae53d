import Variance.Lib.Run
import Variance.Spec.GroupRouter

/-! The remaining group handlers of `api/groups.rs`, and a node's operations as one type: an API
call, an inbound message, or the timer of the invite sweep. -/

namespace Variance
namespace Node
variable {M : OpenMls}

/-- The local user is the sole initial member; the id is a fresh ULID. -/
def mlsCreateGroup (n : Node M) (env : Env) (name : String) : Except AppError Unit × Node M :=
  let trimmed := name.toList.dropWhile Char.isWhitespace
  let trimmed := (trimmed.reverse.dropWhile Char.isWhitespace).reverse
  if trimmed = [] ∨ 100 < (String.ofList trimmed).utf8ByteSize then
    (.error (.badRequest "Group name must be 1–100 characters"), n)
  else match n.mls.createGroup env.ulid env.rng with
    | (.error e, mls) => (.error (.wrap "Failed to create MLS group" e), { n with mls })
    | (.ok (), mls) =>
      let n := emit { n with mls } .schedulePersist
      let n := n.store fun s => s.storeGroupMetadata env.faults
        { id := env.ulid, name := name, adminDid := n.localDid,
          members := [⟨n.localDid, GroupRole.admin, env.now, none⟩],
          createdAt := env.now, avatarCid := none, description := none, frozen := false }
      (.ok (), n.emit (.subscribe (groupTopic env.ulid)))

/-- Encrypt and publish; `keep` also stores the message and its plaintext. -/
def sendGroupContent (n : Node M) (W : Wire) (env : Env) (groupId : String)
    (content : MessageContent) (keep : Bool) : Except AppError Unit × Node M :=
  match n.mls.encryptMessage groupId (W.encodeGroupPayload (.message content)) env.rng with
  | (.error e, mls) => (.error (.wrap "Failed to encrypt MLS message" e), { n with mls })
  | (.ok mlsMsg, mls) =>
    let n := { n with mls }
    match M.serializeMessage mlsMsg with
    | .error e =>
      (.error (.wrap "Failed to serialize MLS ciphertext"
        (.encryption ("Failed to serialize MLS message: " ++ e))), n)
    | .ok bytes =>
      let message : GroupMessage :=
        { id := env.ulid, senderDid := n.localDid, groupId := groupId, timestamp := env.now,
          type := 1, replyTo := none, mlsCiphertext := bytes }
      let n := n.emit (.publish (groupTopic groupId) message)
      let n := if keep then
          (n.store fun s => s.storeGroup env.faults message).persistGroupPlaintext env env.ulid content
        else n
      (.ok (), n.emit .schedulePersist)

def mlsSendGroupMessage (n : Node M) (W : Wire) (env : Env) (groupId text : String)
    (replyTo : Option String) (metadata : SledTree String) : Except AppError Unit × Node M :=
  if text.toList.all Char.isWhitespace ∨ 4096 < text.utf8ByteSize then
    (.error (.badRequest "Message must be 1–4096 characters"), n)
  else match n.requireNotFrozen groupId with
    | .error e => (.error e, n)
    | .ok () =>
      n.sendGroupContent W env groupId { text, attachments := [], mentions := [], replyTo, metadata }
        true

/-- Tell the group that its admin goes without a successor, then depart as in leave. -/
def mlsAbandonGroup (n : Node M) (W : Wire) (env : Env) (id : String) : Except AppError Unit × Node M :=
  match n.requireRole id "admin" with
  | .error e => (.error e, n)
  | .ok () =>
    ((n.sendGroupContent W env id
      (.control [("type", "admin_abandoned"), ("admin_did", n.localDid)]) false).2).departGroup env id

/-- `outranks`: strictly higher. -/
def outranks (actorRole targetRole : String) : Bool := roleRank targetRole < roleRank actorRole

/-- The checks of `mls_remove_member`, down to the member's leaf index. -/
def removalIndex (n : Node M) (id : String) (memberDid : Did) : Except AppError ℕ := do
  n.requireNotFrozen id
  n.requireRole id "moderator"
  let groupMeta := n.storage.fetchGroupMetadata id
  let myRole := memberRoleFromMetadata groupMeta n.localDid
  let targetRole := memberRoleFromMetadata groupMeta memberDid
  if !outranks myRole targetRole then
    throw (.forbidden ("Cannot remove " ++ memberDid ++ " (role: " ++ targetRole ++ ") — your role (" ++
      myRole ++ ") does not outrank theirs"))
  let found ← (n.mls.findMemberIndex id memberDid).mapError (.wrap "Failed to find member")
  match found with
  | some i => pure i
  | none => throw (.notFound ("Member " ++ memberDid ++ " not found in group " ++ id))

/-- The metadata loses the member; a failed write is only logged. -/
def removeFromMetadata (n : Node M) (env : Env) (id : String) (memberDid : Did) : Node M :=
  match n.storage.fetchGroupMetadata id with
  | none => n
  | some groupMeta => n.store fun s => s.storeGroupMetadata env.faults
      { groupMeta with members := groupMeta.members.filter fun m => m.did ≠ memberDid }

def mlsRemoveMember (n : Node M) (env : Env) (id : String) (memberDid : Did) :
    Except AppError Unit × Node M :=
  match n.removalIndex id memberDid with
  | .error e => (.error e, n)
  | .ok memberIndex =>
    match n.mls.removeMember id memberIndex env.rng with
    | (.error e, mls) => (.error (.wrap "Failed to remove member from MLS group" e), { n with mls })
    | (.ok commit, mls) =>
      let n := (emit { n with mls } .schedulePersist).removeFromMetadata env id memberDid
      match M.serializeMessage commit with
      | .error e =>
        (.error (.wrap "Failed to serialize remove commit"
          (.encryption ("Failed to serialize MLS message: " ++ e))), n)
      | .ok bytes => (.ok (), n.emit (.publish (groupTopic id) (n.leaveProto env id bytes)))

/-- The checks of `mls_change_member_role`. -/
def checkRoleChange (n : Node M) (id : String) (memberDid : Did) (newRole : String) :
    Except AppError Unit := do
  n.requireNotFrozen id
  n.requireRole id "admin"
  if roleRank newRole = 0 then
    throw (.badRequest ("Invalid target role '" ++ newRole ++
      "'. Must be 'admin', 'moderator', or 'member'."))
  let groupMeta := n.storage.fetchGroupMetadata id
  let myRole := memberRoleFromMetadata groupMeta n.localDid
  let targetRole := memberRoleFromMetadata groupMeta memberDid
  if !outranks myRole targetRole && newRole ≠ "admin" then
    throw (.forbidden ("Cannot change role of " ++ memberDid ++ " (role: " ++ targetRole ++
      ") — your role (" ++ myRole ++ ") does not outrank theirs"))

def mlsChangeMemberRole (n : Node M) (W : Wire) (env : Env) (id : String) (memberDid : Did)
    (newRole : String) : Except AppError Unit × Node M :=
  match n.checkRoleChange id memberDid newRole with
  | .error e => (.error e, n)
  | .ok () =>
    match n.storage.updateMemberRole env.faults id memberDid (roleOfLabel newRole) with
    | (.error e, storage) => (.error (.wrap "Failed to update member role" e), { n with storage })
    | (.ok false, storage) =>
      (.error (.notFound ("Member " ++ memberDid ++ " not found in group " ++ id)), { n with storage })
    | (.ok true, storage) =>
      (.ok (), (sendGroupContent { n with storage } W env id
        (.control [("type", "role_change"), ("target_did", memberDid), ("new_role", newRole)]) false).2)

/-- Join from a Welcome handed over out of band; richer metadata is kept. -/
def mlsAcceptWelcome (n : Node M) (W : Wire) (env : Env) (mlsWelcome : String) :
    Except AppError Unit × Node M :=
  match W.hexDecode mlsWelcome with
  | none => (.error (.badRequest "Invalid hex-encoded MLS Welcome"), n)
  | some bytes =>
    match M.deserializeMessage bytes with
    | .error e =>
      (.error (.wrap "Failed to deserialize MLS Welcome"
        (.decryption ("Failed to deserialize MLS message: " ++ e))), n)
    | .ok welcome =>
      match n.mls.joinGroupFromWelcome welcome with
      | (.error e, mls) => (.error (.wrap "Failed to join group from MLS Welcome" e), { n with mls })
      | (.ok groupId, mls) =>
        let n := emit { n with mls } .schedulePersist
        let n := match n.storage.fetchGroupMetadata groupId with
          | some _ => n
          | none => n.store fun s => s.storeGroupMetadata env.faults
              { id := groupId, name := "", adminDid := "",
                members := [⟨n.localDid, GroupRole.member, env.now, none⟩],
                createdAt := 0, avatarCid := none, description := none, frozen := false }
        (.ok (), n.emit (.subscribe (groupTopic groupId)))

end Node

/-- What can happen to a node. -/
inductive Op
  | create (env : Env) (name : String)
  | invite (env : Env) (net : InviteNet) (id invitee : String)
  | accept (env : Env) (groupId : String)
  | decline (env : Env) (groupId : String)
  | acceptWelcome (env : Env) (mlsWelcome : String)
  | leave (env : Env) (id : String)
  | abandon (env : Env) (id : String)
  | delete (env : Env) (id : String)
  | removeMember (env : Env) (id : String) (memberDid : Did)
  | changeRole (env : Env) (id : String) (memberDid : Did) (newRole : String)
  | send (env : Env) (groupId text : String) (replyTo : Option String) (metadata : SledTree String)
  | direct (env : Env) (from_ : Did) (messageId : String) (timestamp : ℤ) (content : MessageContent)
  | group (env : Env) (message : GroupMessage)
  | sync (groupId : String) (messages : List (Env × GroupMessage))
  | sweep (env : Env)

variable {M : OpenMls}

/-- One operation; the answer to an API caller is dropped. -/
def Node.exec (W : Wire) (n : Node M) : Op → Node M
  | .create env name => (n.mlsCreateGroup env name).2
  | .invite env net id invitee => (n.mlsInviteToGroup W env net id invitee).2
  | .accept env groupId => (n.acceptInvitation env groupId).2
  | .decline env groupId => (n.declineInvitation env groupId).2
  | .acceptWelcome env mlsWelcome => (n.mlsAcceptWelcome W env mlsWelcome).2
  | .leave env id => (n.mlsLeaveGroup env id).2
  | .abandon env id => (n.mlsAbandonGroup W env id).2
  | .delete env id => (n.mlsDeleteGroup env id).2
  | .removeMember env id memberDid => (n.mlsRemoveMember env id memberDid).2
  | .changeRole env id memberDid newRole => (n.mlsChangeMemberRole W env id memberDid newRole).2
  | .send env groupId text replyTo metadata =>
    (n.mlsSendGroupMessage W env groupId text replyTo metadata).2
  | .direct env from_ messageId timestamp content =>
    n.handleDirectContent W env from_ messageId timestamp content
  | .group env message => n.handleGroupMessage W env message
  | .sync groupId messages => n.handleSyncReceived W groupId messages
  | .sweep env => n.sweepExpiredInvites env

/-- A node as `AppState` first builds it: nothing stored, no group, no message yet. -/
structure Node.Fresh (n : Node M) : Prop where
  storage : n.storage = .empty
  groups : n.mls.groups = ∅

end Variance

/-! One group, as its members' metadata have it while they agree. A step is an operation of one member's node;
the node's own checks and writes tell what the metadata are agreed to be afterwards. -/

namespace Variance

def Group.without (group : Group) (did : Did) : Group :=
  { group with members := group.members.filter fun m => m.did ≠ did }

structure MemberOp (M : OpenMls) where
  node : Node M
  op : Op

variable {M : OpenMls}

/-- The notice of `mls_abandon_group`. -/
def Node.abandonNotice (n : Node M) : MessageContent :=
  .control [("type", "admin_abandoned"), ("admin_did", n.localDid)]

namespace Group

/-- The actor is gone, and so are its metadata. -/
def depart (group : Group) (n : Node M) : Except AppError Unit → Group
  | .ok () => group.without n.localDid
  | .error _ => group

/-- Everybody else freezes the group on the notice, when it could be sent. -/
def abandon (group : Group) (W : Wire) (n : Node M) (env : Env) : Group :=
  match n.requireRole group.id "admin" with
  | .error _ => group
  | .ok () =>
    match (n.sendGroupContent W env group.id n.abandonNotice false).1 with
    | .ok () => { group.without n.localDid with frozen := true }
    | .error _ => group.depart n (n.mlsAbandonGroup W env group.id).1

/-- What the metadata are after an operation of a member: as the actor's own say, if it still has any. -/
def after (W : Wire) (group : Group) (x : MemberOp M) : Group :=
  match x.op with
  | .leave env id => if id = group.id then group.depart x.node (x.node.mlsLeaveGroup env id).1 else group
  | .delete env id => if id = group.id then group.depart x.node (x.node.mlsDeleteGroup env id).1 else group
  | .abandon env id => if id = group.id then group.abandon W x.node env else group
  | .direct .. | .removeMember .. | .changeRole .. =>
    ((x.node.exec W x.op).storage.fetchGroupMetadata group.id).getD group
  | _ => group

/-- A group somebody has just created. -/
def Created (M : OpenMls) (group : Group) : Prop := ∃ (n : Node M) (env : Env) (name : String),
  env.ulid = group.id ∧ env.faults "group_metadata" group.id = false ∧
    (n.mlsCreateGroup env name).1 = .ok () ∧
    (n.mlsCreateGroup env name).2.storage.fetchGroupMetadata group.id = some group

end Group

def successionSys (M : OpenMls) (W : Wire) : StepSystem.Sys Group (MemberOp M) where
  init := Group.Created M
  step := Group.after W

end Variance
