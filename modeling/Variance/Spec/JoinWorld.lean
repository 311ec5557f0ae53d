import Mathlib.Logic.Function.Basic
import Variance.Lib.Run
import Variance.Spec.Direct
import Variance.Spec.InviteWorld
import Variance.Spec.Mls

/-! A node and everyone who invites it to a group: the key package it advertises, the invitations made with
it, and the node's own calls, each of which refreshes the package some time after it has used one. -/

namespace Variance

/-- What a handler does after its refresh: ask for a persist (leave, abandon, removal), or answer the inviter. -/
inductive AfterRefresh
  | persist
  | answer (invitation : GroupInvitation) (groupId joinedGroupId : String)

/-- A handler that is under way, or the startup that gets to `set_local_identity`. -/
inductive Call
  | register (olmIdentityKey : Bytes) (oneTimeKeys : List Bytes) (keyPackage : Option Bytes)
  | refresh (after : AfterRefresh)
  | publish (keyPackage : Bytes) (after : AfterRefresh)
  | answer (invitation : GroupInvitation) (groupId joinedGroupId : String)

/-- The package that was used is still to be replaced. -/
def Call.owes : Call → Bool
  | .refresh _ | .publish .. => true
  | .register .. | .answer .. => false

structure JoinWorld (M : OpenMls) where
  node : Node M
  identity : IdentityHandler
  /-- The tree `mls_state`. -/
  snapshot : Option (MlsStateSnapshot M)
  /-- The debounced persister has been asked to run. -/
  scheduled : Bool
  calls : List Call
  inviters : Did → Node M
  net : List (Did × GroupInvitation)
  /-- The joins that were tried, and whether they succeeded. -/
  joins : List (String × Bool)
  /-- Every package that was generated, and whether one was since the last persist. -/
  minted : List M.KeyPackage
  dirty : Bool
  /-- The groups the node was invited to, and the package of each invitation. -/
  led : List (String × M.KeyPackage)
  accepted : List String
  declined : List String

inductive JoinOp
  | invite (inviter : Did) (env : Env) (groupId : String)
  | arrive (env : Env) (i : ℕ)
  | accept (env : Env) (groupId : String)
  | decline (env : Env) (groupId : String)
  /-- A leave, an abandon or a removal gets to its refresh. -/
  | depart
  | proceed (env : Env) (i : ℕ)
  | persist (env : Env)
  | restart (env : Env) (olmIdentityKey : Bytes) (oneTimeKeys : List Bytes)

variable {M : OpenMls}

namespace JoinWorld

/-- What a process that starts now would restore; `blank` is the key store of a new handler. -/
def durable (w : JoinWorld M) (blank : M.Provider) : M.Provider := (w.snapshot.map (·.storage)).getD blank

def advertised (w : JoinWorld M) : Option M.KeyPackage :=
  (w.identity.localIdentity.bind (·.mlsKeyPackage)).bind fun b => (M.deserializeKeyPackage b).toOption

/-- The network finds our node, and nobody else. -/
def inviteNet (w : JoinWorld M) : InviteNet where
  resolveUsername _ := .error (.notFound "")
  resolveIdentityByDid did :=
    match w.identity.resolveDid did with
    | none => .error "not found"
    | some found => .ok found.mlsKeyPackage

/-- An inviter asks for our package and adds us with it. -/
def invite (W : Wire) (w : JoinWorld M) (d : Did) (env : Env) (groupId : String) : JoinWorld M :=
  let n := w.inviters d
  let me := w.node.localDid
  let w' := { w with
    inviters := Function.update w.inviters d (n.mlsInviteToGroup W env w.inviteNet groupId me).2 }
  match n.inviteKeyPackage w.inviteNet groupId me with
  | .error _ => w'
  | .ok (_, keyPackage) =>
    match n.mls.addMemberDeferred groupId keyPackage env.rng with
    | (.error _, _) => w'
    | (.ok result, _) =>
      { w' with
        led := (groupId, keyPackage) :: w.led
        net := match invitationFor n env groupId me result with
          | none => w.net
          | some invitation => w.net ++ [(d, invitation)] }

/-- The invitation comes in as a direct message. -/
def arrive (W : Wire) (w : JoinWorld M) (env : Env) (i : ℕ) : JoinWorld M :=
  match w.net[i]? with
  | none => w
  | some (d, invitation) =>
    { w with
      node := w.node.handleDirectContent W env d env.ulid env.now (Node.invitationContent W invitation)
      net := w.net.eraseIdx i }

/-- `accept_invitation` up to its refresh. -/
def accept (w : JoinWorld M) (env : Env) (groupId : String) : JoinWorld M :=
  match w.node.storage.fetchPendingInvitation groupId with
  | none => w
  | some invitation =>
    match M.deserializeMessage invitation.mlsWelcome with
    | .error _ => { w with joins := (groupId, false) :: w.joins }
    | .ok welcome =>
      match w.node.mls.joinGroupFromWelcome welcome with
      | (.error _, mls) => { w with node := { w.node with mls }, joins := (groupId, false) :: w.joins }
      | (.ok joined, mls) =>
        { w with
          node := Node.enterGroup { w.node with mls } env invitation joined
          joins := (groupId, true) :: w.joins
          accepted := groupId :: w.accepted
          scheduled := true
          calls := w.calls ++ [.refresh (.answer invitation groupId joined)] }

def decline (w : JoinWorld M) (env : Env) (groupId : String) : JoinWorld M :=
  match w.node.storage.fetchPendingInvitation groupId with
  | none => w
  | some _ =>
    { w with
      node := (w.node.declineInvitation env groupId).2
      declined := groupId :: w.declined }

/-- The call at `i` is over, or goes on to its answer. -/
def endRefresh (w : JoinWorld M) (i : ℕ) : AfterRefresh → JoinWorld M
  | .persist => { w with calls := w.calls.eraseIdx i, scheduled := true }
  | .answer invitation groupId joined => { w with calls := w.calls.set i (.answer invitation groupId joined) }

/-- The next step of the `i`-th call. -/
def proceed (w : JoinWorld M) (env : Env) (i : ℕ) : JoinWorld M :=
  match w.calls[i]? with
  | none => w
  | some (.register olmIdentityKey oneTimeKeys kp) =>
    { w with
      identity := .setLocalIdentity w.node.localDid olmIdentityKey oneTimeKeys kp
      calls := w.calls.eraseIdx i }
  | some (.refresh after) =>
    match w.node.mls.generateKeyPackage env.rng with
    | (.error _, mls) => endRefresh { w with node := { w.node with mls } } i after
    | (.ok kp, mls) =>
      let w := { w with node := { w.node with mls }, minted := kp :: w.minted, dirty := true }
      match M.serializeKeyPackage kp with
      | .error _ => w.endRefresh i after
      | .ok bytes => { w with calls := w.calls.set i (.publish bytes after) }
  | some (.publish bytes after) =>
    endRefresh { w with identity := w.identity.updateMlsKeyPackage bytes } i after
  | some (.answer invitation groupId joined) =>
    { w with
      node := w.node.answerInvitation env invitation groupId joined
      calls := w.calls.eraseIdx i }

/-- `do_persist`, its failure only logged. -/
def persist (w : JoinWorld M) (env : Env) : JoinWorld M :=
  if w.scheduled then
    if env.faults "mls_state" w.node.localDid then { w with scheduled := false }
    else { w with scheduled := false, snapshot := some w.node.mls.exportState, dirty := false }
  else w

/-- The process stops and starts: the snapshot is restored, and a package generated and stored. -/
def restart (blank : M.Provider) (w : JoinWorld M) (env : Env) (olmIdentityKey : Bytes)
    (oneTimeKeys : List Bytes) : JoinWorld M :=
  let mls : MlsGroupHandler M := ⟨w.node.localDid, blank, ∅, ∅⟩
  let mls := match w.snapshot with
    | none => mls
    | some s => mls.restoreInPlace s
  let start (w : JoinWorld M) (mls : MlsGroupHandler M) (kp : Option Bytes) : JoinWorld M :=
    { w with
      node := { w.node with mls }
      identity := ⟨none⟩
      scheduled := false
      calls := [.register olmIdentityKey oneTimeKeys kp] }
  match mls.generateKeyPackage env.rng with
  | (.error _, mls) => start w mls none
  | (.ok kp, mls) =>
    let w := { w with minted := kp :: w.minted, dirty := true }
    match M.serializeKeyPackage kp with
    | .error _ => start w mls none
    | .ok bytes =>
      if env.faults "mls_state" w.node.localDid then start w mls (some bytes)
      else start { w with snapshot := some mls.exportState, dirty := false } mls (some bytes)

def step (W : Wire) (blank : M.Provider) (w : JoinWorld M) : JoinOp → JoinWorld M
  | .invite d env groupId => w.invite W d env groupId
  | .arrive env i => w.arrive W env i
  | .accept env groupId => w.accept env groupId
  | .decline env groupId => w.decline env groupId
  | .depart => { w with calls := w.calls ++ [.refresh .persist] }
  | .proceed env i => w.proceed env i
  | .persist env => w.persist env
  | .restart env ik otks => w.restart blank env ik otks

/-- A node that never ran, and nobody has invited. -/
structure Uninvited (w : JoinWorld M) : Prop where
  identity : w.identity.localIdentity = none
  pending : w.node.storage.pendingInvitations = ∅
  calls : w.calls = []
  net : w.net = []
  joins : w.joins = []
  minted : w.minted = []
  led : w.led = []
  accepted : w.accepted = []
  declined : w.declined = []

/-- Nobody invites us to a group we are in, and no group does so twice; an inviter's group has the id it
is kept under. -/
def Distinct (K : JoinKeys M) (blank : M.Provider) (w : JoinWorld M) : JoinOp → Prop
  | .invite d _ groupId => (∀ k, (groupId, k) ∉ w.led) ∧ ¬ K.stored w.node.mls.provider groupId ∧
    ¬ K.stored (w.durable blank) groupId ∧
    ∀ g : M.Group, (w.inviters d).mls.groups[groupId]? = some g → M.groupId g = groupId
  | _ => True

/-- The RNG draws no package twice. -/
def FreshPackages (blank : M.Provider) (w : JoinWorld M) : JoinOp → Prop
  | .proceed env _ => ∀ k, (w.node.mls.generateKeyPackage env.rng).1 = .ok k → k ∉ w.minted
  | .restart env _ _ => ∀ k, (M.buildKeyPackage w.node.localDid env.rng (w.durable blank)).1 = .ok k → k ∉ w.minted
  | _ => True

end JoinWorld

def joinSys (M : OpenMls) (W : Wire) (blank : M.Provider) : StepSystem.Sys (JoinWorld M) JoinOp where
  init := JoinWorld.Uninvited
  step := JoinWorld.step W blank

end Variance
