import Variance.Spec.Groups

/-! Group recovery: `reinitialize_group` (`mls.rs`) founds the group again under a new id and adds whom it has
a key package of, one at a time; `mls_reinitialize_group` (`api/groups.rs`) collects the packages and sends
the Welcomes. -/

namespace Variance

/-- `ReinitResult`. -/
structure ReinitResult (M : OpenMls) where
  newGroupId : String
  welcomes : List (Did × M.Message)
  members : List Did

namespace MlsGroupHandler
variable {M : OpenMls}

def epoch (h : MlsGroupHandler M) (groupId : String) : Except MsgError ℕ :=
  match h.groups[groupId]? with
  | none => .error (.groupNotFound groupId)
  | some g => .ok (M.epoch g)

def clearDesync (h : MlsGroupHandler M) (groupId : String) : MlsGroupHandler M :=
  match h.desyncCounters[groupId]? with
  | none => h
  | some _ => { h with desyncCounters := h.desyncCounters.insert groupId ⟨0, false⟩ }

/-- Unlike `add_member_deferred`, merges its commit at once. -/
def addMember (h : MlsGroupHandler M) (groupId : String) (keyPackage : M.KeyPackage) (rng : ℕ) :
    Except MsgError (AddMemberResult M) × MlsGroupHandler M :=
  match h.withGroup groupId (fun e => .mlsCommit ("Failed to add member: " ++ e))
      (M.addMembers h.localDid rng [keyPackage]) with
  | (.error e, h') => (.error e, h')
  | (.ok (commit, welcome), h') =>
    let (r, h'') := h'.withGroup groupId
      (fun e => .mlsCommit ("Failed to merge pending commit after add: " ++ e)) M.mergePendingCommit
    (r.map fun _ => ⟨commit, welcome⟩, h'')

/-- The members to add, in turn: a failed add is logged and passed over, and so is who has no package. The
commit of an add is dropped. -/
def addAll (groupId : String) (keyPackages : SledTree M.KeyPackage) :
    List Did → ℕ → MlsGroupHandler M → List (Did × M.Message) × MlsGroupHandler M
  | [], _, h => ([], h)
  | d :: ds, rng, h =>
    if d = h.localDid then addAll groupId keyPackages ds (rng + 1) h
    else match keyPackages[d]? with
      | none => addAll groupId keyPackages ds (rng + 1) h
      | some kp =>
        match h.addMember groupId kp rng with
        | (.error _, h') => addAll groupId keyPackages ds (rng + 1) h'
        | (.ok result, h') =>
          let (welcomes, h'') := addAll groupId keyPackages ds (rng + 1) h'
          ((d, result.welcome) :: welcomes, h'')

/-- `{group_id}-reinit-{epoch}`; an unknown group counts as one of epoch 0 without members. -/
def reinitId (h : MlsGroupHandler M) (groupId : String) : String :=
  groupId ++ "-reinit-" ++ toString (match h.epoch groupId with | .ok e => e | .error _ => 0)

/-- The old group is gone before the new one is made. -/
def reinitializeGroup (h : MlsGroupHandler M) (groupId : String) (keyPackages : SledTree M.KeyPackage) (rng : ℕ) :
    Except MsgError (ReinitResult M) × MlsGroupHandler M :=
  let newGroupId := h.reinitId groupId
  let oldMembers := h.membersOrDefault groupId
  match ((h.removeGroup groupId).clearDesync groupId).createGroup newGroupId rng with
  | (.error e, h') => (.error e, h')
  | (.ok (), h') =>
    let (welcomes, h'') := addAll newGroupId keyPackages oldMembers (rng + 1) h'
    (.ok ⟨newGroupId, welcomes, h.localDid :: welcomes.map (·.1)⟩, h'')

end MlsGroupHandler

/-- What a reinitialisation reads from outside: the key packages the caller hands over, what a member answers
when asked for its own, and whether an Olm session with it could be had and the message sent. -/
structure ReinitNet where
  provided : Option (SledTree String)
  resolveIdentityByDid : Did → Except String (Option Bytes)
  dmOk : Did → Bool

namespace Node
variable {M : OpenMls}

/-- A package handed over has to be good; one that is fetched may not be. -/
def reinitKeyPackage (M : OpenMls) (W : Wire) (net : ReinitNet) (d : Did) :
    Except AppError (Option M.KeyPackage) :=
  match net.provided.bind (·[d]?) with
  | some kpHex =>
    match W.hexDecode kpHex with
    | none => .error (.app ("Invalid hex KeyPackage for " ++ d))
    | some bytes =>
      match M.deserializeKeyPackage bytes with
      | .error e => .error (.wrap ("Invalid KeyPackage for " ++ d)
          (.decryption ("Failed to deserialize KeyPackage: " ++ e)))
      | .ok kpIn =>
        match M.validateKeyPackage kpIn with
        | .error e => .error (.wrap ("KeyPackage validation failed for " ++ d)
            (.mlsKeyPackage ("KeyPackage validation failed: " ++ e)))
        | .ok kp => .ok (some kp)
  | none =>
    match net.resolveIdentityByDid d with
    | .ok (some bytes) =>
      match M.deserializeKeyPackage bytes with
      | .error _ => .ok none
      | .ok kpIn =>
        match M.validateKeyPackage kpIn with
        | .error _ => .ok none
        | .ok kp => .ok (some kp)
    | _ => .ok none

def collectKeyPackages (M : OpenMls) (W : Wire) (net : ReinitNet) (localDid : Did) :
    List Did → SledTree M.KeyPackage → Except AppError (SledTree M.KeyPackage)
  | [], t => .ok t
  | d :: ds, t =>
    if d = localDid then collectKeyPackages M W net localDid ds t
    else match reinitKeyPackage M W net d with
      | .error e => .error e
      | .ok none => collectKeyPackages M W net localDid ds t
      | .ok (some kp) => collectKeyPackages M W net localDid ds (t.insert d kp)

/-- The group's metadata under the new id, all members included; a failed write is only logged. -/
def copyMetadata (n : Node M) (env : Env) (id newGroupId : String) : Node M :=
  match n.storage.fetchGroupMetadata id with
  | none => n
  | some oldMeta => n.store fun s => s.storeGroupMetadata env.faults { oldMeta with id := newGroupId }

def reinitInvitation (n : Node M) (env : Env) (id newGroupId : String) (d : Did) (welcome : Bytes) :
    GroupInvitation :=
  let groupMeta := n.storage.fetchGroupMetadata id
  { groupId := newGroupId
    groupName := (groupMeta.map (·.name)).getD ""
    inviterDid := n.localDid
    inviteeDid := d
    timestamp := env.now
    members := (groupMeta.map (·.members)).getD []
    mlsWelcome := welcome
    mlsCommit := [] }

/-- The Welcomes in turn, as invitations. Who cannot be reached is passed over; a Welcome that does not
serialize ends the request. -/
def sendWelcomes (W : Wire) (env : Env) (net : ReinitNet) (id newGroupId : String) :
    List (Did × M.Message) → Node M → Except AppError (List Did) × Node M
  | [], n => (.ok [], n)
  | (d, welcome) :: rest, n =>
    match M.serializeMessage welcome with
    | .error e => (.error (.wrap ("Failed to serialize Welcome for " ++ d)
        (.encryption ("Failed to serialize MLS message: " ++ e))), n)
    | .ok bytes =>
      if net.dmOk d then
        let content := invitationContent W (n.reinitInvitation env id newGroupId d bytes)
        let (r, n') := sendWelcomes W env net id newGroupId rest (n.emit (.sendDm d content))
        (r.map (d :: ·), n')
      else sendWelcomes W env net id newGroupId rest n

/-- What the caller is told. -/
structure ReinitResponse where
  newGroupId : String
  reinvitedMembers : List Did
  totalMembers : ℕ

def mlsReinitializeGroup (n : Node M) (W : Wire) (env : Env) (net : ReinitNet) (id : String) :
    Except AppError ReinitResponse × Node M :=
  match n.requireRole id "admin" with
  | .error e => (.error e, n)
  | .ok () =>
    if (n.mls.groups[id]?).isNone then (.error (.app ("Not a member of group " ++ id)), n)
    else match n.mls.listMembers id with
      | .error e => (.error (.wrap "Failed to list members" e), n)
      | .ok members =>
        match collectKeyPackages M W net n.localDid members ∅ with
        | .error e => (.error e, n)
        | .ok keyPackages =>
          match n.mls.reinitializeGroup id keyPackages env.rng with
          | (.error e, mls) => (.error (.wrap "Failed to reinitialize group" e), { n with mls })
          | (.ok result, mls) =>
            let n := emit { n with mls } (.subscribe (groupTopic result.newGroupId))
            match sendWelcomes W env net id result.newGroupId result.welcomes
                (n.copyMetadata env id result.newGroupId) with
            | (.error e, n) => (.error e, n)
            | (.ok reinvited, n) =>
              (.ok ⟨result.newGroupId, reinvited, result.members.length⟩,
                (n.emit .schedulePersist).emit (.ws (.groupReinitialized id result.newGroupId)))

/-- The request gets as far as the reinitialisation itself, with these key packages. -/
def Collects (n : Node M) (W : Wire) (net : ReinitNet) (id : String) (kps : SledTree M.KeyPackage) : Prop :=
  n.requireRole id "admin" = .ok () ∧ ∃ members, n.mls.listMembers id = .ok members ∧
    collectKeyPackages M W net n.localDid members ∅ = .ok kps

end Node

end Variance
