import Variance.Spec.Node

/-! The two-phase invitation flow. The inviter's side is `mls_invite_to_group` (`api/groups.rs`)
and the router's handling of the invitee's answer and of expiry (`event_router/messaging.rs`);
the invitee's side is `accept_invitation` and `decline_invitation` (`api/invitations.rs`). -/

namespace Variance

/-- `role_label`. -/
def roleLabel (role : GroupRole) : String :=
  if role = 3 then "admin" else if role = 2 then "moderator" else "member"

def memberRoleFromMetadata (groupMeta : Option Group) (did : Did) : String :=
  match groupMeta.bind fun g => g.members.find? fun m => m.did = did with
  | some m => roleLabel m.role
  | none => "member"

def roleRank (role : String) : ℕ :=
  if role = "admin" then 3 else if role = "moderator" then 2 else 1

def maxGroupMembers : ℕ := 100

/-- `INVITE_TIMEOUT_MS`. -/
def inviteTimeoutMs : ℤ := 5 * 60 * 1000

/-- What the network answers while an invitation is made: the did behind a username, and the
key package in the invitee's identity response. -/
structure InviteNet where
  resolveUsername : String → Except AppError Did
  resolveIdentityByDid : Did → Except String (Option Bytes)

namespace Node
variable {M : OpenMls}

def requireRole (n : Node M) (groupId minRole : String) : Except AppError Unit :=
  let actual := memberRoleFromMetadata (n.storage.fetchGroupMetadata groupId) n.localDid
  if roleRank actual < roleRank minRole then
    .error (.forbidden ("Requires " ++ minRole ++ " role, but you are " ++ actual))
  else .ok ()

def requireNotFrozen (n : Node M) (groupId : String) : Except AppError Unit :=
  if ((n.storage.fetchGroupMetadata groupId).map (·.frozen)).getD false then
    .error (.forbidden ("This group is frozen — the admin left without transferring the role. " ++
      "No messages, invites, kicks, or role changes are allowed."))
  else .ok ()

theorem requireNotFrozen_iff {n : Node M} {groupId : String} : n.requireNotFrozen groupId = .ok () ↔
    ∀ group, n.storage.fetchGroupMetadata groupId = some group → group.frozen = false := by
  unfold requireNotFrozen
  cases n.storage.fetchGroupMetadata groupId with
  | none => simp
  | some group => cases h : group.frozen <;> simp [h]

def isSoleAdmin (n : Node M) (groupId : String) : Bool :=
  match n.storage.fetchGroupMetadata groupId with
  | none => false
  | some group =>
    memberRoleFromMetadata (some group) n.localDid = "admin" &&
      (group.members.filter fun m => m.role = GroupRole.admin).length = 1

def hasOtherMembers (n : Node M) (groupId : String) : Bool :=
  match n.storage.fetchGroupMetadata groupId with
  | none => false
  | some group => group.members.any fun m => m.did ≠ n.localDid

/-- `resolve_invitee_did`: a did as it is, anything else through the registry and the DHT. -/
def resolveInviteeDid (net : InviteNet) (invitee : String) : Except AppError Did :=
  if Text.HasPrefix "did:" invitee then .ok invitee else net.resolveUsername invitee

/-- The checks of `mls_invite_to_group` in their order, down to the invitee's key package. -/
def inviteKeyPackage (n : Node M) (net : InviteNet) (id invitee : String) :
    Except AppError (Did × M.KeyPackage) := do
  if invitee.toList.all Char.isWhitespace then
    throw (.badRequest "invitee must not be empty")
  n.requireNotFrozen id
  n.requireRole id "admin"
  if maxGroupMembers ≤ (n.mls.membersOrDefault id).length then
    throw (.badRequest ("Group has reached the maximum of " ++ toString maxGroupMembers ++ " members"))
  let inviteeDid ← resolveInviteeDid net invitee
  let found ← (net.resolveIdentityByDid inviteeDid).mapError fun e =>
    .app ("Cannot reach " ++ inviteeDid ++ " via P2P to fetch their MLS KeyPackage: " ++ e)
  let kpBytes ← match found with
    | some b => pure b
    | none => throw (.app ("Peer " ++ inviteeDid ++ " does not have an MLS KeyPackage available"))
  let kpIn ← (M.deserializeKeyPackage kpBytes).mapError fun e =>
    .wrap "Failed to deserialize KeyPackage" (.decryption ("Failed to deserialize KeyPackage: " ++ e))
  let keyPackage ← (M.validateKeyPackage kpIn).mapError fun e =>
    .wrap "Invalid KeyPackage" (.mlsKeyPackage ("KeyPackage validation failed: " ++ e))
  pure (inviteeDid, keyPackage)

/-- The invitation proto, from the group metadata as stored. -/
def groupInvitation (n : Node M) (env : Env) (id : String) (inviteeDid : Did)
    (welcome commit : Bytes) : GroupInvitation :=
  let groupMeta := n.storage.fetchGroupMetadata id
  { groupId := id
    groupName := (groupMeta.map (·.name)).getD ""
    inviterDid := n.localDid
    inviteeDid := inviteeDid
    timestamp := env.now
    members := (groupMeta.map (·.members)).getD []
    mlsWelcome := welcome
    mlsCommit := commit }

def invitationContent (W : Wire) (invitation : GroupInvitation) : MessageContent :=
  .control [("type", "mls_group_invitation"), ("group_id", invitation.groupId),
    ("invitation", W.hexEncode (W.encodeInvitation invitation))]

/-- Once the commit is pending: serialize, store the outbound invite, send the invitation. A
serialization error returns with the commit still pending; a failed store is only logged. -/
def sendInvitation (n : Node M) (W : Wire) (env : Env) (id : String) (inviteeDid : Did)
    (result : AddMemberResult M) : Except AppError Unit × Node M :=
  match M.serializeMessage result.welcome with
  | .error e =>
    (.error (.wrap "Failed to serialize Welcome"
      (.encryption ("Failed to serialize MLS message: " ++ e))), n)
  | .ok welcome =>
    match M.serializeMessage result.commit with
    | .error e =>
      (.error (.wrap "Failed to serialize commit"
        (.encryption ("Failed to serialize MLS message: " ++ e))), n)
    | .ok commit =>
      let invitation := n.groupInvitation env id inviteeDid welcome commit
      let n := n.store fun s => s.storeOutboundInvite env.faults id inviteeDid invitation env.now
      (.ok (), if env.dmOk then n.emit (.sendDm inviteeDid (invitationContent W invitation)) else n)

def mlsInviteToGroup (n : Node M) (W : Wire) (env : Env) (net : InviteNet) (id invitee : String) :
    Except AppError Unit × Node M :=
  match n.inviteKeyPackage net id invitee with
  | .error e => (.error e, n)
  | .ok (inviteeDid, keyPackage) =>
    match n.mls.addMemberDeferred id keyPackage env.rng with
    | (.error e, mls) => (.error (.wrap "Failed to add member to MLS group" e), { n with mls })
    | (.ok result, mls) =>
      sendInvitation (emit { n with mls } .schedulePersist) W env id inviteeDid result

/-! The router's side: answers to an invitation, and its expiry -/

/-- Store the invitation as pending; errors are logged by the caller. -/
def handleGroupInvitationDm (n : Node M) (W : Wire) (env : Env) (invitationHex : String)
    (from_ : Did) : Except String Unit × Node M :=
  match W.hexDecode invitationHex with
  | none => (.error "Invalid invitation hex", n)
  | some bytes =>
    match W.decodeInvitation bytes with
    | none => (.error "Failed to decode GroupInvitation proto", n)
    | some invitation =>
      match n.storage.storePendingInvitation env.faults invitation with
      | (.error e, _) => (.error ("Failed to store pending invitation: " ++ e.display), n)
      | (.ok (), storage) =>
        (.ok (), emit { n with storage }
          (.ws (.groupInvitationReceived invitation.groupId invitation.groupName from_)))

/-- The group gains the member, unless the metadata is missing or lists it already. -/
def addToMetadata (n : Node M) (env : Env) (groupId : String) (inviteeDid : Did) : Node M :=
  match n.storage.fetchGroupMetadata groupId with
  | none => n
  | some groupMeta =>
    if groupMeta.members.any fun m => m.did = inviteeDid then n
    else n.store fun s => s.storeGroupMetadata env.faults
      { groupMeta with members := groupMeta.members ++
          [{ did := inviteeDid, role := GroupRole.member, joinedAt := env.now, nickname := none }] }

/-- Publish the commit kept in the outbound invite, when there is one. -/
def publishInviteCommit (n : Node M) (env : Env) (groupId : String) (inviteeDid : Did) : Node M :=
  match n.storage.fetchOutboundInvite groupId inviteeDid with
  | none => n
  | some (invitation, _) =>
    if invitation.mlsCommit = [] then n
    else n.emit (.publish (groupTopic groupId)
      { id := env.ulid, senderDid := n.localDid, groupId := groupId, timestamp := env.now,
        type := 0, replyTo := none, mlsCiphertext := invitation.mlsCommit })

/-- Merge whatever commit is pending; only then look the outbound invite up. -/
def handleInviteAcceptedDm (n : Node M) (env : Env) (groupId : String) (inviteeDid : Did) : Node M :=
  match n.mls.confirmAddMember groupId with
  | (.error _, mls) => { n with mls }
  | (.ok (), mls) =>
    ((((emit { n with mls } .schedulePersist).publishInviteCommit env groupId inviteeDid).addToMetadata
      env groupId inviteeDid).store fun s => s.deleteOutboundInvite env.faults groupId inviteeDid).emit
      (.ws (.groupInvitationAccepted groupId inviteeDid))

/-- Clear whatever commit is pending; clean the record up even when that fails. -/
def handleInviteDeclinedDm (n : Node M) (env : Env) (groupId : String) (inviteeDid : Did) : Node M :=
  ((emit { n with mls := (n.mls.cancelAddMember groupId).2 } .schedulePersist).store
    fun s => s.deleteOutboundInvite env.faults groupId inviteeDid).emit
    (.ws (.groupInvitationDeclined groupId inviteeDid))

/-- One expired invite of the sweep. -/
def expireInvite (env : Env) (n : Node M) (x : String × Did × GroupInvitation) : Node M :=
  (store { n with mls := (n.mls.cancelAddMember x.1).2 }
    fun s => s.deleteOutboundInvite env.faults x.1 x.2.1).emit (.ws (.groupInvitationExpired x.1 x.2.1))

/-- One round of `spawn_invite_timeout_sweep`. -/
def sweepExpiredInvites (n : Node M) (env : Env) : Node M :=
  let expired := n.storage.fetchExpiredOutboundInvites inviteTimeoutMs env.now
  let n := expired.foldl (expireInvite env) n
  if expired.isEmpty then n else n.emit .schedulePersist

/-- The arm of the direct-message listener after `receive_message` gave `content`: dispatch on
`metadata["type"]`, and drop a control message from the history. -/
def handleDirectContent (n : Node M) (W : Wire) (env : Env) (from_ : Did) (messageId : String)
    (timestamp : ℤ) (content : MessageContent) : Node M :=
  let forget (n : Node M) : Node M :=
    n.store fun s => s.deleteDirectById env.faults from_ n.localDid timestamp messageId
  match content.metadata["type"]? with
  | some "mls_group_invitation" =>
    forget (match content.metadata["invitation"]? with
      | some hex => (n.handleGroupInvitationDm W env hex from_).2
      | none => n)
  | some "mls_invite_accepted" =>
    forget (match content.metadata["group_id"]? with
      | some groupId => n.handleInviteAcceptedDm env groupId from_
      | none => n)
  | some "mls_invite_declined" =>
    forget (match content.metadata["group_id"]? with
      | some groupId => n.handleInviteDeclinedDm env groupId from_
      | none => n)
  | _ =>
    (n.emit (.ws (.directMessageReceived from_ messageId content.text timestamp))).emit
      (.deliveredReceipt from_ messageId)

/-! The invitee's side -/

def acceptedContent (groupId : String) : MessageContent :=
  .control [("type", "mls_invite_accepted"), ("group_id", groupId)]

def declinedContent (groupId : String) : MessageContent :=
  .control [("type", "mls_invite_declined"), ("group_id", groupId)]

/-- The metadata an invitee starts from: the invitation's members, itself among them, and the
first admin listed. -/
def joinedMetadata (n : Node M) (env : Env) (invitation : GroupInvitation) (groupId : String) : Group :=
  { id := groupId
    name := invitation.groupName
    adminDid := ((invitation.members.find? fun m => m.role = GroupRole.admin).map (·.did)).getD ""
    members :=
      if invitation.members.any fun m => m.did = n.localDid then invitation.members
      else invitation.members ++
        [{ did := n.localDid, role := GroupRole.member, joinedAt := env.now, nickname := none }]
    createdAt := invitation.timestamp
    avatarCid := none
    description := none
    frozen := false }

/-- After a successful join: a persist, the metadata and the topic. -/
def enterGroup (n : Node M) (env : Env) (invitation : GroupInvitation) (joinedGroupId : String) : Node M :=
  let n := n.emit .schedulePersist
  let n := n.store fun s => s.storeGroupMetadata env.faults (n.joinedMetadata env invitation joinedGroupId)
  n.emit (.subscribe (groupTopic joinedGroupId))

/-- The acceptance, and the end of the pending invitation. -/
def answerInvitation (n : Node M) (env : Env) (invitation : GroupInvitation)
    (groupId joinedGroupId : String) : Node M :=
  let n := if env.dmOk then n.emit (.sendDm invitation.inviterDid (acceptedContent joinedGroupId)) else n
  n.store fun s => s.deletePendingInvitation env.faults groupId

/-- In between comes a fresh key package, whose persist nobody asks for. -/
def finishAccept (n : Node M) (env : Env) (invitation : GroupInvitation)
    (groupId joinedGroupId : String) : Node M :=
  ((n.enterGroup env invitation joinedGroupId).refreshKeyPackage env false).answerInvitation env invitation
    groupId joinedGroupId

def acceptInvitation (n : Node M) (env : Env) (groupId : String) : Except AppError String × Node M :=
  match n.storage.fetchPendingInvitation groupId with
  | none => (.error (.notFound ("No pending invitation for group " ++ groupId)), n)
  | some invitation =>
    match M.deserializeMessage invitation.mlsWelcome with
    | .error e =>
      (.error (.wrap "Failed to deserialize MLS Welcome"
        (.decryption ("Failed to deserialize MLS message: " ++ e))), n)
    | .ok welcome =>
      match n.mls.joinGroupFromWelcome welcome with
      | (.error e, mls) => (.error (.wrap "Failed to join group from MLS Welcome" e), { n with mls })
      | (.ok joined, mls) => (.ok joined, finishAccept { n with mls } env invitation groupId joined)

def declineInvitation (n : Node M) (env : Env) (groupId : String) : Except AppError Unit × Node M :=
  match n.storage.fetchPendingInvitation groupId with
  | none => (.error (.notFound ("No pending invitation for group " ++ groupId)), n)
  | some invitation =>
    let n := if env.dmOk then n.emit (.sendDm invitation.inviterDid (declinedContent groupId)) else n
    (.ok (), n.store fun s => s.deletePendingInvitation env.faults groupId)

/-! Leaving and deleting a group -/

def leaveProto (n : Node M) (env : Env) (id : String) (bytes : Bytes) : GroupMessage :=
  { id := env.ulid, senderDid := n.localDid, groupId := id, timestamp := env.now,
    type := 0, replyTo := none, mlsCiphertext := bytes }

/-- Shared by leave and abandon: announce, unsubscribe, forget the group, fresh key package. -/
def departGroup (n : Node M) (env : Env) (id : String) : Except AppError Unit × Node M :=
  match n.mls.leaveGroup id env.rng with
  | (.error e, mls) => (.error (.wrap "Failed to leave MLS group" e), { n with mls })
  | (.ok leaveMsg, mls) =>
    let n := { n with mls }
    match M.serializeMessage leaveMsg with
    | .error e =>
      (.error (.wrap "Failed to serialize leave proposal"
        (.encryption ("Failed to serialize MLS message: " ++ e))), n)
    | .ok bytes =>
      let n := (n.emit (.publish (groupTopic id) (n.leaveProto env id bytes))).emit
        (.unsubscribe (groupTopic id))
      let n := (emit { n with mls := n.mls.removeGroup id } .schedulePersist).purgeGroup env id
      (.ok (), n.refreshKeyPackage env true)

def mlsLeaveGroup (n : Node M) (env : Env) (id : String) : Except AppError Unit × Node M :=
  if n.isSoleAdmin id && n.hasOtherMembers id then
    (.error (.badRequest ("You are the only admin. Transfer the admin role to another member " ++
      "before leaving, or use 'Abandon group' to leave without succession " ++
      "(the group will be frozen for remaining members).")), n)
  else n.departGroup env id

/-- The best-effort farewell of a delete. -/
def announceLeave (n : Node M) (env : Env) (id : String) : Node M :=
  match n.mls.leaveGroup id env.rng with
  | (.error _, mls) => { n with mls }
  | (.ok leaveMsg, mls) =>
    let n := { n with mls }
    match M.serializeMessage leaveMsg with
    | .error _ => n
    | .ok bytes => n.emit (.publish (groupTopic id) (n.leaveProto env id bytes))

/-- No key package is generated. -/
def mlsDeleteGroup (n : Node M) (env : Env) (id : String) : Except AppError Unit × Node M :=
  match n.requireRole id "admin" with
  | .error e => (.error e, n)
  | .ok () =>
    let n := (n.announceLeave env id).emit (.unsubscribe (groupTopic id))
    (.ok (), (emit { n with mls := n.mls.removeGroup id } .schedulePersist).purgeGroup env id)

end Node

end Variance
