import Mathlib.Data.Prod.Lex
import Variance.Spec.Clients

/-! A node whose process can die, and what openmls promises of the ratchet that it goes on with. -/

namespace Variance

/-! What openmls promises of our own sender ratchet: an application message is sealed with the group's epoch and the
next generation, which it uses up; a group call never goes back in either. -/

/-- `sealedAt` is nothing for a handshake message. `commitOf` is the commit that a message is, or that a Welcome belongs
to; `applied` lists the commits whose result a group's current epoch is (its transcript). -/
structure Ratchet (M : OpenMls) where
  generation : M.Group → ℕ
  sealedAt : M.Message → Option (ℕ ×ₗ ℕ)
  commitOf : M.Message → Option M.Commit
  applied : M.Group → List M.Commit

namespace Ratchet
variable {M : OpenMls} (R : Ratchet M)

/-- The epoch of the group, and the generation that our next message in it uses. -/
def pos (g : M.Group) : ℕ ×ₗ ℕ := toLex (M.epoch g, R.generation g)

/-- What of a group a crash must not undo. -/
def standing (g : M.Group) : (ℕ ×ₗ ℕ) × Option M.Commit × List M.Commit := (R.pos g, M.pendingCommit g, R.applied g)

/-- The commit is merged, or pending. -/
def Has (g : M.Group) (k : M.Commit) : Prop := k ∈ R.applied g ∨ M.pendingCommit g = some k

/-- What the bytes of a ciphertext were sealed with. -/
def sealOf (bytes : Bytes) : Option (ℕ ×ₗ ℕ) := (M.deserializeMessage bytes).toOption.bind R.sealedAt

/-- What a publication in the group was sealed with. -/
def stamp (gid : String) : Effect → Option (ℕ ×ₗ ℕ)
  | .publish _ m => if m.groupId = gid then R.sealOf m.mlsCiphertext else none
  | _ => none

/-- What our publications in the group were sealed with, in their order. -/
def spent (gid : String) (es : List Effect) : List (ℕ ×ₗ ℕ) := es.filterMap (R.stamp gid)

end Ratchet

structure RatchetLaws (M : OpenMls) extends Ratchet M where
  create : ∀ {d rng b p g m p' g'}, M.createMessage d rng b p g = (.ok m, p', g') →
    sealedAt m = some (toRatchet.pos g) ∧ toRatchet.pos g < toRatchet.pos g'
  run : ∀ (c : GroupCall M) p g, toRatchet.pos g ≤ toRatchet.pos (c.run p g).2
  add : ∀ {d rng kps p g c w p' g'}, M.addMembers d rng kps p g = (.ok (c, w), p', g') → sealedAt c = none
  remove : ∀ {d rng is p g c p' g'}, M.removeMembers d rng is p g = (.ok c, p', g') → sealedAt c = none
  proposals : ∀ {d rng p g c p' g'}, M.commitToPendingProposals d rng p g = (.ok c, p', g') → sealedAt c = none
  leave : ∀ {d rng p g m p' g'}, M.leaveGroup d rng p g = (.ok m, p', g') → sealedAt m = none
  update : ∀ {d rng p g c p' g'}, M.selfUpdate d rng p g = (.ok c, p', g') → sealedAt c = none
  message : ∀ {m b}, M.serializeMessage m = .ok b → M.deserializeMessage b = .ok m

/-! A node whose process can die. What it keeps is its stores, the snapshot of its MLS state among them
(`mls_persister.rs`); what is in memory comes back from there when it starts (`node.rs`, `restore_in_place`). -/

structure CrashWorld (M : OpenMls) where
  node : Node M
  /-- The tree `mls_state`. -/
  snapshot : Option (MlsStateSnapshot M)
  /-- The debounced persister has been asked to run. -/
  scheduled : Bool

inductive CrashEvent
  | serve (e : ClientEvent)
  /-- A round of self-updates is over, and asks for a persist. -/
  | roundOver
  /-- The debounce window has passed. -/
  | persist (env : Env)
  /-- The process dies, and a new one starts. -/
  | crash (env : Env)

namespace CrashWorld
variable {M : OpenMls} (R : Ratchet M) (W : Wire) (blank : M.Provider)

def serve (w : CrashWorld M) (e : ClientEvent) : CrashWorld M :=
  let n := w.node.serve W e
  { w with
    node := n
    scheduled := w.scheduled || (n.effects.drop w.node.effects.length).contains .schedulePersist }

/-- `do_persist`, its failure only logged. -/
def persist (w : CrashWorld M) (env : Env) : CrashWorld M :=
  if w.scheduled then
    if env.faults "mls_state" w.node.localDid then { w with scheduled := false }
    else { w with scheduled := false, snapshot := some w.node.mls.exportState }
  else w

/-- The handler of a new process, whose key store is `blank`, with the snapshot restored. -/
def restored (w : CrashWorld M) : MlsGroupHandler M :=
  let mls : MlsGroupHandler M := ⟨w.node.localDid, blank, ∅, ∅⟩
  match w.snapshot with
  | none => mls
  | some s => mls.restoreInPlace s

/-- `subscribe_to_topic` for every group. -/
def resubscribe (n : Node M) : Node M :=
  (n.mls.groups.toList.map (·.1)).foldl (fun n gid => n.emit (.subscribe (groupTopic gid))) n

/-- The start of a process: the snapshot restored, the groups' topics subscribed to, and a key package generated and
stored. -/
def crash (w : CrashWorld M) (env : Env) : CrashWorld M :=
  let n := resubscribe { w.node with mls := w.restored blank }
  match n.mls.generateKeyPackage env.rng with
  | (.error _, mls) => { w with node := { n with mls }, scheduled := false }
  | (.ok kp, mls) =>
    let w := { w with node := { n with mls }, scheduled := false }
    match M.serializeKeyPackage kp with
    | .error _ => w
    | .ok _ => if env.faults "mls_state" n.localDid then w else { w with snapshot := some mls.exportState }

def step (w : CrashWorld M) : CrashEvent → CrashWorld M
  | .serve e => w.serve W e
  | .roundOver => { w with scheduled := true }
  | .persist env => w.persist env
  | .crash env => w.crash blank env

/-- A node that has said nothing yet. -/
structure Fresh (w : CrashWorld M) : Prop where
  node : w.node.Fresh
  effects : w.node.effects = []
  snapshot : w.snapshot = none

/-! The two laws -/

/-- No two ciphertexts of a group are sealed with one generation of one epoch. -/
def Unrepeated (w : CrashWorld M) : Prop := ∀ gid, (R.spent gid w.node.effects).Nodup

/-- The group in memory has the commit. -/
def Knows (w : CrashWorld M) (gid : String) (k : M.Commit) : Prop := ∃ g, w.node.mls.groups[gid]? = some g ∧ R.Has g k

/-- The bytes are the commit, or a Welcome that belongs to it. -/
def IsCommit (bytes : Bytes) (k : M.Commit) : Prop := ∃ m, M.deserializeMessage bytes = .ok m ∧ R.commitOf m = some k

/-- The commit was published in the group, or went out in an invitation, with which the invitee merges it. -/
def GaveOut (w : CrashWorld M) (gid : String) (k : M.Commit) : Prop :=
  (∃ topic m, .publish topic m ∈ w.node.effects ∧ m.groupId = gid ∧ IsCommit R m.mlsCiphertext k) ∨
    ∃ d i, .sendDm d (Node.invitationContent W i) ∈ w.node.effects ∧ i.groupId = gid ∧ IsCommit R i.mlsWelcome k

/-- From `w` to `w'` the node forgets a commit that it gave out. -/
def Forgets (w w' : CrashWorld M) (gid : String) (k : M.Commit) : Prop :=
  w.GaveOut R W gid k ∧ w.Knows R gid k ∧ ¬ w'.Knows R gid k

/-- The step seals nothing twice, and if it is a crash the node forgets no commit of its own in it. -/
structure Consistent (w : CrashWorld M) (e : CrashEvent) : Prop where
  unrepeated : (w.step W blank e).Unrepeated R
  remembers : ∀ env, e = .crash env → ∀ gid k, ¬ w.Forgets R W (w.step W blank e) gid k

/-! Crashes that undo nothing -/

/-- The group as the snapshot has it. -/
def stored (w : CrashWorld M) (gid : String) : Option M.Group :=
  match w.snapshot with
  | none => none
  | some s =>
    if gid ∈ s.groupIds then
      match M.loadGroup gid s.storage with
      | .ok g => g
      | .error _ => none
    else none

/-- The node has published in the group, or invited to it. -/
def Spoke (w : CrashWorld M) (gid : String) : Prop :=
  (∃ topic m, .publish topic m ∈ w.node.effects ∧ m.groupId = gid) ∨
    ∃ d i, .sendDm d (Node.invitationContent W i) ∈ w.node.effects ∧ i.groupId = gid

/-- The condition: the process dies only when the snapshot has the groups that the node has spoken to as they stand in
memory, and a group that comes in anew is past all that was sealed under its id. -/
def Settled (w : CrashWorld M) : CrashEvent → Prop
  | .serve (.event e) => ∀ gid x, e.Founds w.node W gid x → ∀ s ∈ R.spent gid w.node.effects, s < R.pos x
  | .crash _ => ∀ gid, w.Spoke W gid → (w.stored gid).map R.standing = (w.node.mls.groups[gid]?).map R.standing
  | _ => True

end CrashWorld

/-- A node from nothing on, through any number of crashes. -/
def crashSys (M : OpenMls) (W : Wire) (blank : M.Provider) : StepSystem.Sys (CrashWorld M) CrashEvent where
  init := CrashWorld.Fresh
  step := CrashWorld.step W blank

end Variance
