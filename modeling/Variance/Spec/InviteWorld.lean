import Variance.Lib.Run
import Variance.Lib.SlotLog
import Variance.Spec.Mls
import Variance.Spec.Groups

/-! One inviter and any number of invitees. Direct messages, once sent, stay in `net` and may be
delivered at any time, in any order and any number of times. `log` is a ghost: the adds
that were issued, the joins, and what became of each pending commit, newest first. -/

namespace Variance

/-- `answers` is a ghost: the invitation the sender had before him when he answered. -/
structure Dm where
  from_ : Did
  to_ : Did
  messageId : String
  timestamp : ℤ
  content : MessageContent
  answers : Option GroupInvitation

def Dm.kind (dm : Dm) : Option String := dm.content.metadata["type"]?
def Dm.groupId (dm : Dm) : Option String := dm.content.metadata["group_id"]?

/-- The invitation is missing when a part of it did not serialize. -/
structure Issue (M : OpenMls) where
  groupId : String
  inviteeDid : Did
  commit : M.Commit
  invitation : Option GroupInvitation
  issuedAt : ℤ

/-- The inviter's step that took a commit out of its slot. -/
inductive Cause
  | invite
  | direct (dm : Dm)
  | sweep (now : ℤ)
  | group (message : GroupMessage)

inductive InviteEvent (M : OpenMls)
  | issued (x : Issue M)
  | settled (groupId : String) (commit : M.Commit) (merged : Bool) (cause : Cause)
  | joined (did : Did) (invitation : GroupInvitation) (groupId : String)

structure InviteWorld (M : OpenMls) where
  inviter : Node M
  invitees : Did → Node M
  net : List Dm
  log : List (InviteEvent M)

inductive InviteMove
  | invite (env : Env) (net : InviteNet) (id invitee : String)
  | deliver (env : Env) (k : ℕ)
  | accept (env : Env) (did : Did) (groupId : String)
  | decline (env : Env) (did : Did) (groupId : String)
  | sweep (env : Env)
  | group (env : Env) (message : GroupMessage)

variable {M : OpenMls}

/-- The direct messages a step handed over for sending. -/
def sentDms (n n' : Node M) : List (Did × MessageContent) :=
  (n'.effects.drop n.effects.length).filterMap fun
    | .sendDm recipient content => some (recipient, content)
    | _ => none

/-- The invitation that `sendInvitation` sends. -/
def invitationFor (n : Node M) (env : Env) (id : String) (inviteeDid : Did)
    (result : AddMemberResult M) : Option GroupInvitation :=
  match M.serializeMessage result.welcome, M.serializeMessage result.commit with
  | .ok welcome, .ok commit => some (n.groupInvitation env id inviteeDid welcome commit)
  | _, _ => none

/-- The add that `mls_invite_to_group` leaves pending, if it gets that far. -/
def issueOf (n : Node M) (env : Env) (net : InviteNet) (id invitee : String) : Option (Issue M) :=
  match n.inviteKeyPackage net id invitee with
  | .error _ => none
  | .ok (inviteeDid, keyPackage) =>
    match n.mls.addMemberDeferred id keyPackage env.rng with
    | (.error _, _) => none
    | (.ok result, mls) => (mls.slot id).map fun commit =>
      { groupId := id
        inviteeDid := inviteeDid
        commit := commit
        invitation := invitationFor n env id inviteeDid result
        issuedAt := env.now }

/-- The commits a step took out of their slots, and whether the group's epoch is now theirs. -/
def settlements [DecidableEq M.Commit] (S : CommitSlot M) (n n' : Node M) (cause : Cause) :
    List (InviteEvent M) :=
  n.mls.groups.toList.filterMap fun e =>
    match M.pendingCommit e.2, n'.mls.slot e.1 with
    | some c, none =>
      some (.settled e.1 c
        (decide ((n'.mls.groups[e.1]?).map S.applied = some (S.applied e.2 ++ [c]))) cause)
    | _, _ => none

namespace InviteWorld
variable [DecidableEq M.Commit]

/-- The inviter's node goes on to `n'`. -/
def act (w : InviteWorld M) (S : CommitSlot M) (cause : Cause) (n' : Node M) : InviteWorld M :=
  { w with inviter := n', log := settlements S w.inviter n' cause ++ w.log }

/-- The messages of a step enter the network. -/
def send (w : InviteWorld M) (env : Env) (from_ : Did) (answers : Option GroupInvitation)
    (dms : List (Did × MessageContent)) : InviteWorld M :=
  { w with net := w.net ++ dms.map fun x => ⟨from_, x.1, env.ulid, env.now, x.2, answers⟩ }

def record (w : InviteWorld M) (es : List (InviteEvent M)) : InviteWorld M :=
  { w with log := es ++ w.log }

def setInvitee (w : InviteWorld M) (d : Did) (n : Node M) : InviteWorld M :=
  { w with invitees := Function.update w.invitees d n }

def step (S : CommitSlot M) (W : Wire) (w : InviteWorld M) : InviteMove → InviteWorld M
  | .invite env net id invitee =>
    let n' := (w.inviter.mlsInviteToGroup W env net id invitee).2
    ((w.act S .invite n').record
      ((issueOf w.inviter env net id invitee).map InviteEvent.issued).toList).send env
      w.inviter.localDid none (sentDms w.inviter n')
  | .deliver env k =>
    match w.net[k]? with
    | none => w
    | some dm =>
      if dm.to_ = w.inviter.localDid then
        w.act S (.direct dm)
          (w.inviter.handleDirectContent W env dm.from_ dm.messageId dm.timestamp dm.content)
      else w.setInvitee dm.to_
        ((w.invitees dm.to_).handleDirectContent W env dm.from_ dm.messageId dm.timestamp dm.content)
  | .accept env d groupId =>
    let n := w.invitees d
    let invitation := n.storage.fetchPendingInvitation groupId
    let r := n.acceptInvitation env groupId
    (((w.setInvitee d r.2).record
      (match invitation, r.1 with
        | some i, .ok joined => [.joined d i joined]
        | _, _ => []))).send env d invitation (sentDms n r.2)
  | .decline env d groupId =>
    let n := w.invitees d
    let r := n.declineInvitation env groupId
    (w.setInvitee d r.2).send env d (n.storage.fetchPendingInvitation groupId) (sentDms n r.2)
  | .sweep env => w.act S (.sweep env.now) (w.inviter.sweepExpiredInvites env)
  | .group env message => w.act S (.group message) (w.inviter.handleGroupMessage W env message)

/-- The inviter may have any groups, with no invitation under way; nobody holds an invitation. -/
structure Start (w : InviteWorld M) : Prop where
  slots : ∀ g, w.inviter.mls.slot g = none
  invites : w.inviter.storage.outboundInvites = ∅
  pending : ∀ d, (w.invitees d).storage.pendingInvitations = ∅
  net : w.net = []
  log : w.log = []

end InviteWorld

def inviteWorld [DecidableEq M.Commit] (S : CommitSlot M) (W : Wire) :
    StepSystem.Sys (InviteWorld M) InviteMove where
  init w := w.Start
  step w e := w.step S W e

/-- How the log reads as a history of the groups' slots. -/
def slotAct : InviteEvent M → SlotLog.Act String M.Commit
  | .issued x => .put x.groupId x.commit
  | .settled g c _ _ => .take g c
  | .joined .. => .other

end Variance
