import Variance.Lib.Run
import Variance.Spec.Reinit

/-! Everything that can happen to a node's groups: its operations, the recovery of a group, and the timer that
rotates its leaf's keys every six hours (`start_mls_self_update` in `node.rs`). -/

namespace Variance

/-- An operation, a recovery, or one group of a self-update round. -/
inductive Event
  | op (o : Op)
  | reinitializeGroup (env : Env) (net : ReinitNet) (id : String)
  | selfUpdate (env : Env) (groupId : String)

namespace Node
variable {M : OpenMls}

/-- A commit that does not serialize stays merged and unpublished. -/
def selfUpdateGroup (n : Node M) (env : Env) (groupId : String) : Node M :=
  match n.mls.selfUpdate groupId env.rng with
  | (.error _, mls) => { n with mls }
  | (.ok commit, mls) =>
    let n := { n with mls }
    match M.serializeMessage commit with
    | .error _ => n
    | .ok bytes =>
      n.emit (.publish (groupTopic groupId)
        { id := env.ulid, senderDid := n.localDid, groupId := groupId, timestamp := env.now,
          type := 0, replyTo := none, mlsCiphertext := bytes })

def react (W : Wire) (n : Node M) : Event → Node M
  | .op o => n.exec W o
  | .reinitializeGroup env net id => (n.mlsReinitializeGroup W env net id).2
  | .selfUpdate env groupId => n.selfUpdateGroup env groupId

end Node

/-- A node from nothing on, through whatever happens to its groups. -/
def groupSys (M : OpenMls) (W : Wire) : StepSystem.Sys (Node M) Event where
  init := Node.Fresh
  step n e := n.react W e

/-! What a step asks of openmls -/

/-- A call on a live group; `receive` is a message processed, with what the handler does at once with what
comes of it. -/
inductive GroupCall (M : OpenMls)
  | addMembers (d : Did) (rng : ℕ) (kp : M.KeyPackage)
  | removeMembers (d : Did) (rng : ℕ) (i : ℕ)
  | mergePendingCommit
  | clearPendingCommit
  | createMessage (d : Did) (rng : ℕ) (plaintext : Bytes)
  | receive (m : M.Message)
  | commitToPendingProposals (d : Did) (rng : ℕ)
  | leaveGroup (d : Did) (rng : ℕ)
  | selfUpdate (d : Did) (rng : ℕ)

/-- A message processed, and the proposal in it stored or the commit in it merged. -/
def OpenMls.receive (M : OpenMls) (m : M.Message) (p : M.Provider) (g : M.Group) : M.Provider × M.Group :=
  match M.processMessage m p g with
  | (.ok (_, .proposalMessage q), p', g') => (M.storePendingProposal q p' g').2
  | (.ok (_, .stagedCommitMessage c), p', g') => (M.mergeStagedCommit c p' g').2
  | (.ok (_, .applicationMessage _), p', g') => (p', g')
  | (.ok (_, .other), p', g') => (p', g')
  | (.error _, p', g') => (p', g')

/-- How a message ends that is processed: in failure, with a plaintext, or as a handshake that goes through. -/
def OpenMls.received (M : OpenMls) (m : M.Message) (p : M.Provider) (g : M.Group) : Option (Option DecryptedMessage) :=
  match M.processMessage m p g with
  | (.error _, _, _) => none
  | (.ok (s, .applicationMessage b), _, _) => some (some ⟨b, s⟩)
  | (.ok (_, .proposalMessage q), p', g') => (M.storePendingProposal q p' g').1.toOption.map fun _ => none
  | (.ok (_, .stagedCommitMessage c), p', g') => (M.mergeStagedCommit c p' g').1.toOption.map fun _ => none
  | (.ok (_, .other), _, _) => some none

namespace GroupCall
variable {M : OpenMls}

/-- What the call makes of the key store and the group. -/
def run (p : M.Provider) (g : M.Group) : GroupCall M → M.Provider × M.Group
  | .addMembers d rng kp => (M.addMembers d rng [kp] p g).2
  | .removeMembers d rng i => (M.removeMembers d rng [i] p g).2
  | .mergePendingCommit => (M.mergePendingCommit p g).2
  | .clearPendingCommit => (M.clearPendingCommit p g).2
  | .createMessage d rng b => (M.createMessage d rng b p g).2
  | .receive m => M.receive m p g
  | .commitToPendingProposals d rng => (M.commitToPendingProposals d rng p g).2
  | .leaveGroup d rng => (M.leaveGroup d rng p g).2
  | .selfUpdate d rng => (M.selfUpdate d rng p g).2

/-- Nothing comes into the group from outside with this call. -/
def Inner : GroupCall M → Prop
  | .addMembers .. => False
  | .receive _ => False
  | _ => True

/-- The call moves nobody in or out, and leaves no commit behind. -/
def Still : GroupCall M → Prop
  | .createMessage .. => True
  | .clearPendingCommit => True
  | .leaveGroup .. => True
  | _ => False

theorem Still.inner {c : GroupCall M} (h : c.Still) : c.Inner := by
  cases c <;> trivial

end GroupCall

/-- A group that somebody can come to from a Welcome. -/
def OpenMls.Welcomes (M : OpenMls) (m : M.Message) (g : M.Group) : Prop :=
  ∃ w staged p p₁ p₂, M.extractWelcome m = some w ∧ M.newFromWelcome w p = (.ok staged, p₁) ∧
    M.intoGroup staged p₁ = (.ok g, p₂)

/-- Ciphertext bytes that openmls can be given. -/
def OpenMls.Reads (M : OpenMls) (bytes : Bytes) (pm : M.Message) : Prop :=
  ∃ m, M.deserializeMessage bytes = .ok m ∧ M.tryIntoProtocolMessage m = .ok pm

namespace Event
variable {M : OpenMls}

/-- The key packages a step may offer to a group, and whose each is taken to be. -/
def Adds (n : Node M) (W : Wire) : Event → String → Did → M.KeyPackage → Prop
  | .op (.invite _ net id invitee) => fun gid d kp => gid = id ∧ n.inviteKeyPackage net id invitee = .ok (d, kp)
  | .reinitializeGroup _ net id => fun gid d kp => gid = n.mls.reinitId id ∧ ∃ kps, n.Collects W net id kps ∧
      d ∈ n.mls.membersOrDefault id ∧ d ≠ n.mls.localDid ∧ kps[d]? = some kp
  | _ => fun _ _ _ => False

/-- The messages a step may process in a group. -/
def Receives (M : OpenMls) : Event → String → M.Message → Prop
  | .op (.group _ message) => fun gid pm => gid = message.groupId ∧ M.Reads message.mlsCiphertext pm
  | .op (.sync id messages) => fun gid pm => gid = id ∧ ∃ x ∈ messages, M.Reads x.2.mlsCiphertext pm
  | _ => fun _ _ => False

/-- The group a step may make or merge a commit in. -/
def Commits (h : MlsGroupHandler M) : Event → String → Prop
  | .op (.removeMember _ id _) => fun gid => gid = id
  | .op (.direct _ _ _ _ content) => fun gid =>
      content.metadata["type"]? = some "mls_invite_accepted" ∧ content.metadata["group_id"]? = some gid
  | .op (.group _ message) => fun gid => gid = message.groupId
  | .reinitializeGroup _ _ id => fun gid => gid = h.reinitId id
  | .selfUpdate _ id => fun gid => gid = id
  | _ => fun _ => False

/-- The groups a step may bring in. -/
def Founds (n : Node M) (W : Wire) : Event → String → M.Group → Prop
  | .op (.create env _) => fun gid g => gid = env.ulid ∧
      ∃ p p', M.newWithGroupId n.mls.localDid gid env.rng p = (.ok g, p')
  | .op (.accept _ id) => fun gid g => gid = M.groupId g ∧ ∃ i m, n.storage.fetchPendingInvitation id = some i ∧
      M.deserializeMessage i.mlsWelcome = .ok m ∧ M.Welcomes m g
  | .op (.acceptWelcome _ hex) => fun gid g => gid = M.groupId g ∧ ∃ b m, W.hexDecode hex = some b ∧
      M.deserializeMessage b = .ok m ∧ M.Welcomes m g
  | .reinitializeGroup _ _ id => fun gid g => gid = n.mls.reinitId id ∧
      ∃ rng p p', M.newWithGroupId n.mls.localDid gid rng p = (.ok g, p')
  | _ => fun _ _ => False

/-- The calls a step may make. -/
inductive Makes (n : Node M) (W : Wire) (e : Event) (gid : String) : GroupCall M → Prop
  | still {c : GroupCall M} (hs : c.Still) : Makes n W e gid c
  | commit {c : GroupCall M} (hi : c.Inner) (hc : e.Commits n.mls gid) : Makes n W e gid c
  | add {d' : Did} {rng : ℕ} {d : Did} {kp : M.KeyPackage} (ha : e.Adds n W gid d kp) :
      Makes n W e gid (.addMembers d' rng kp)
  | receive {pm : M.Message} (hr : e.Receives M gid pm) : Makes n W e gid (.receive pm)

end Event

end Variance
