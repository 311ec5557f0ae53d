import Variance.Spec.Types

/-! `variance-messaging/src/mls.rs`. The `openmls` crate is a parameter: its
types and the calls the handler makes, each a function of the provider's key
store and the group it is called on. A draw from the system RNG is an argument.
What the crate documents about the pending-commit slot is `CommitSlot`. -/

namespace Variance

/-- What `process_message` yields (`ProcessedMessageContent`). -/
inductive ProcessedContent (Proposal Commit : Type)
  | applicationMessage (plaintext : Bytes)
  | proposalMessage (proposal : Proposal)
  | stagedCommitMessage (commit : Commit)
  | other

/-- The `openmls` calls. A group call sees the key store and the group, and may have changed
both even when it fails. -/
structure OpenMls where
  Provider : Type
  Group : Type
  KeyPackage : Type
  Message : Type
  Welcome : Type
  StagedWelcome : Type
  Proposal : Type
  Commit : Type
  buildKeyPackage : Did → ℕ → Provider → Except String KeyPackage × Provider
  newWithGroupId : Did → String → ℕ → Provider → Except String Group × Provider
  groupId : Group → String
  members : Group → List (ℕ × Did)
  epoch : Group → ℕ
  pendingCommit : Group → Option Commit
  pendingProposals : Group → List Proposal
  addMembers : Did → ℕ → List KeyPackage → Provider → Group →
    Except String (Message × Message) × Provider × Group
  removeMembers : Did → ℕ → List ℕ → Provider → Group → Except String Message × Provider × Group
  mergePendingCommit : Provider → Group → Except String Unit × Provider × Group
  clearPendingCommit : Provider → Group → Except String Unit × Provider × Group
  createMessage : Did → ℕ → Bytes → Provider → Group → Except String Message × Provider × Group
  tryIntoProtocolMessage : Message → Except String Message
  /-- The credential of the sender's leaf, and the content. -/
  processMessage : Message → Provider → Group →
    Except String (Did × ProcessedContent Proposal Commit) × Provider × Group
  storePendingProposal : Proposal → Provider → Group → Except String Unit × Provider × Group
  mergeStagedCommit : Commit → Provider → Group → Except String Unit × Provider × Group
  commitToPendingProposals : Did → ℕ → Provider → Group → Except String Message × Provider × Group
  leaveGroup : Did → ℕ → Provider → Group → Except String Message × Provider × Group
  selfUpdate : Did → ℕ → Provider → Group → Except String Message × Provider × Group
  extractWelcome : Message → Option Welcome
  newFromWelcome : Welcome → Provider → Except String StagedWelcome × Provider
  intoGroup : StagedWelcome → Provider → Except String Group × Provider
  deleteGroup : Group → Provider → Provider
  loadGroup : String → Provider → Except String (Option Group)
  serializeMessage : Message → Except String Bytes
  deserializeMessage : Bytes → Except String Message
  serializeKeyPackage : KeyPackage → Except String Bytes
  deserializeKeyPackage : Bytes → Except String KeyPackage
  validateKeyPackage : KeyPackage → Except String KeyPackage

/-- A group operation: the key store and the group before it, both after it, and its result. -/
abbrev OpenMls.GroupOp (M : OpenMls) (α : Type) :=
  M.Provider → M.Group → Except String α × M.Provider × M.Group

structure DesyncCounter where
  consecutiveFailures : ℕ
  flagged : Bool
deriving DecidableEq

structure MlsGroupHandler (M : OpenMls) where
  localDid : Did
  provider : M.Provider
  groups : SledTree M.Group
  desyncCounters : SledTree DesyncCounter

structure AddMemberResult (M : OpenMls) where
  commit : M.Message
  welcome : M.Message

structure DecryptedMessage where
  plaintext : Bytes
  senderCredential : Did
deriving DecidableEq

/-- `MlsStateSnapshot`: the key store's entries and the ids of the live groups. -/
structure MlsStateSnapshot (M : OpenMls) where
  groupIds : List String
  storage : M.Provider

variable {M : OpenMls}

namespace MlsGroupHandler

/-- The shape of every group operation: look the group up, run, and keep what it left behind. -/
def withGroup {α : Type} (h : MlsGroupHandler M) (groupId : String) (wrap : String → MsgError)
    (op : M.GroupOp α) : Except MsgError α × MlsGroupHandler M :=
  match h.groups[groupId]? with
  | none => (.error (.groupNotFound groupId), h)
  | some g =>
    let (r, provider, g') := op h.provider g
    (r.mapError wrap, { h with provider, groups := h.groups.insert groupId g' })

def generateKeyPackage (h : MlsGroupHandler M) (rng : ℕ) :
    Except MsgError M.KeyPackage × MlsGroupHandler M :=
  let (r, provider) := M.buildKeyPackage h.localDid rng h.provider
  (r.mapError fun e => .mlsKeyPackage ("Failed to build KeyPackage: " ++ e), { h with provider })

def createGroup (h : MlsGroupHandler M) (groupId : String) (rng : ℕ) :
    Except MsgError Unit × MlsGroupHandler M :=
  match M.newWithGroupId h.localDid groupId rng h.provider with
  | (.error e, provider) =>
    (.error (.mlsGroup ("Failed to create MLS group: " ++ e)), { h with provider })
  | (.ok g, provider) => (.ok (), { h with provider, groups := h.groups.insert groupId g })

/-- Leaves the group with its commit pending; fails fast when one already is. -/
def addMemberDeferred (h : MlsGroupHandler M) (groupId : String) (keyPackage : M.KeyPackage)
    (rng : ℕ) : Except MsgError (AddMemberResult M) × MlsGroupHandler M :=
  match h.groups[groupId]? with
  | none => (.error (.groupNotFound groupId), h)
  | some g =>
    if (M.pendingCommit g).isSome then (.error .mlsPendingCommit, h)
    else
      let (r, h') := h.withGroup groupId
        (fun e => .mlsCommit ("Failed to add member (deferred): " ++ e))
        (M.addMembers h.localDid rng [keyPackage])
      (r.map fun p => ⟨p.1, p.2⟩, h')

def confirmAddMember (h : MlsGroupHandler M) (groupId : String) :
    Except MsgError Unit × MlsGroupHandler M :=
  match h.groups[groupId]? with
  | none => (.error (.groupNotFound groupId), h)
  | some g =>
    if (M.pendingCommit g).isNone then (.error (.mlsNoPendingCommit groupId), h)
    else h.withGroup groupId (fun e => .mlsCommit ("Failed to merge pending commit: " ++ e))
      M.mergePendingCommit

def cancelAddMember (h : MlsGroupHandler M) (groupId : String) :
    Except MsgError Unit × MlsGroupHandler M :=
  match h.groups[groupId]? with
  | none => (.error (.groupNotFound groupId), h)
  | some g =>
    if (M.pendingCommit g).isNone then (.error (.mlsNoPendingCommit groupId), h)
    else h.withGroup groupId (fun e => .mlsCommit ("Failed to clear pending commit: " ++ e))
      M.clearPendingCommit

def listMembers (h : MlsGroupHandler M) (groupId : String) : Except MsgError (List Did) :=
  match h.groups[groupId]? with
  | none => .error (.groupNotFound groupId)
  | some g => .ok ((M.members g).map (·.2))

/-- `list_members(..).unwrap_or_default()`. -/
def membersOrDefault (h : MlsGroupHandler M) (groupId : String) : List Did :=
  match h.listMembers groupId with
  | .ok dids => dids
  | .error _ => []

def encryptMessage (h : MlsGroupHandler M) (groupId : String) (plaintext : Bytes) (rng : ℕ) :
    Except MsgError M.Message × MlsGroupHandler M :=
  h.withGroup groupId (fun e => .encryption ("MLS encrypt failed: " ++ e))
    (M.createMessage h.localDid rng plaintext)

/-- Application messages come back decrypted; proposals are stored and commits merged,
and both return `none`. -/
def processMessage (h : MlsGroupHandler M) (groupId : String) (message : M.Message) :
    Except MsgError (Option DecryptedMessage) × MlsGroupHandler M :=
  match h.groups[groupId]? with
  | none => (.error (.groupNotFound groupId), h)
  | some _ =>
    match M.tryIntoProtocolMessage message with
    | .error e => (.error (.decryption ("Not a protocol message: " ++ e)), h)
    | .ok protocolMessage =>
      match h.withGroup groupId (fun e => .decryption ("MLS process_message failed: " ++ e))
          (M.processMessage protocolMessage) with
      | (.error e, h') => (.error e, h')
      | (.ok (senderCredential, .applicationMessage plaintext), h') =>
        (.ok (some ⟨plaintext, senderCredential⟩), h')
      | (.ok (_, .proposalMessage proposal), h') =>
        let (r, h'') := h'.withGroup groupId (fun e => .mlsGroup ("Failed to store proposal: " ++ e))
          (M.storePendingProposal proposal)
        (r.map fun _ => none, h'')
      | (.ok (_, .stagedCommitMessage staged), h') =>
        let (r, h'') := h'.withGroup groupId
          (fun e => .mlsCommit ("Failed to merge staged commit: " ++ e)) (M.mergeStagedCommit staged)
        (r.map fun _ => none, h'')
      | (.ok (_, .other), h') => (.ok none, h')

/-- The group id is the one inside the Welcome, and the joined group replaces any under that id. -/
def joinGroupFromWelcome (h : MlsGroupHandler M) (welcome : M.Message) :
    Except MsgError String × MlsGroupHandler M :=
  match M.extractWelcome welcome with
  | none => (.error (.mlsWelcome "Message is not a Welcome"), h)
  | some w =>
    match M.newFromWelcome w h.provider with
    | (.error e, provider) =>
      (.error (.mlsWelcome ("Failed to stage welcome: " ++ e)), { h with provider })
    | (.ok staged, provider) =>
      match M.intoGroup staged provider with
      | (.error e, provider) =>
        (.error (.mlsWelcome ("Failed to join group from welcome: " ++ e)), { h with provider })
      | (.ok group, provider) =>
        (.ok (M.groupId group),
          { h with provider, groups := h.groups.insert (M.groupId group) group })

def leaveGroup (h : MlsGroupHandler M) (groupId : String) (rng : ℕ) :
    Except MsgError M.Message × MlsGroupHandler M :=
  h.withGroup groupId (fun e => .mlsGroup ("Failed to leave group: " ++ e))
    (M.leaveGroup h.localDid rng)

/-- The commit that rotates our leaf's keys, merged at once. -/
def selfUpdate (h : MlsGroupHandler M) (groupId : String) (rng : ℕ) :
    Except MsgError M.Message × MlsGroupHandler M :=
  match h.withGroup groupId (fun e => .mlsGroup ("Failed to self-update group: " ++ e))
      (M.selfUpdate h.localDid rng) with
  | (.error e, h') => (.error e, h')
  | (.ok commit, h') =>
    let (r, h'') := h'.withGroup groupId
      (fun e => .mlsGroup ("Failed to merge self-update commit: " ++ e)) M.mergePendingCommit
    (r.map fun _ => commit, h'')

/-- `none` when the proposal store is empty; otherwise the merged commit, to broadcast. -/
def commitPendingProposals (h : MlsGroupHandler M) (groupId : String) (rng : ℕ) :
    Except MsgError (Option M.Message) × MlsGroupHandler M :=
  match h.groups[groupId]? with
  | none => (.error (.groupNotFound groupId), h)
  | some g =>
    if (M.pendingProposals g).isEmpty then (.ok none, h)
    else
      match h.withGroup groupId (fun e => .mlsCommit ("Failed to commit pending proposals: " ++ e))
          (M.commitToPendingProposals h.localDid rng) with
      | (.error e, h') => (.error e, h')
      | (.ok commit, h') =>
        let (r, h'') := h'.withGroup groupId
          (fun e => .mlsCommit ("Failed to merge pending commit after proposal commit: " ++ e))
          M.mergePendingCommit
        (r.map fun _ => some commit, h'')

def removeMember (h : MlsGroupHandler M) (groupId : String) (memberIndex : ℕ) (rng : ℕ) :
    Except MsgError M.Message × MlsGroupHandler M :=
  match h.withGroup groupId (fun e => .mlsCommit ("Failed to remove member: " ++ e))
      (M.removeMembers h.localDid rng [memberIndex]) with
  | (.error e, h') => (.error e, h')
  | (.ok commit, h') =>
    let (r, h'') := h'.withGroup groupId
      (fun e => .mlsCommit ("Failed to merge pending commit after remove: " ++ e))
      M.mergePendingCommit
    (r.map fun _ => commit, h'')

def findMemberIndex (h : MlsGroupHandler M) (groupId : String) (memberDid : Did) :
    Except MsgError (Option ℕ) :=
  match h.groups[groupId]? with
  | none => .error (.groupNotFound groupId)
  | some g => .ok (((M.members g).find? fun m => m.2 = memberDid).map (·.1))

def removeGroup (h : MlsGroupHandler M) (groupId : String) : MlsGroupHandler M :=
  match h.groups[groupId]? with
  | none => h
  | some g =>
    { h with provider := M.deleteGroup g h.provider, groups := h.groups.erase groupId }

def desyncThreshold : ℕ := 3

def recordProcessingSuccess (h : MlsGroupHandler M) (groupId : String) : MlsGroupHandler M :=
  match h.desyncCounters[groupId]? with
  | none => h
  | some c =>
    { h with desyncCounters := h.desyncCounters.insert groupId { c with consecutiveFailures := 0 } }

/-- Whether the threshold was crossed by this failure, and not before. -/
def recordProcessingFailure (h : MlsGroupHandler M) (groupId : String) :
    Bool × MlsGroupHandler M :=
  let c := (h.desyncCounters[groupId]?).getD ⟨0, false⟩
  let newCount := c.consecutiveFailures + 1
  let crossed := decide (desyncThreshold ≤ newCount) && !c.flagged
  (crossed,
    { h with desyncCounters := h.desyncCounters.insert groupId ⟨newCount, c.flagged || crossed⟩ })

def exportState (h : MlsGroupHandler M) : MlsStateSnapshot M :=
  ⟨h.groups.toList.map (·.1), h.provider⟩

/-- Groups listed in the snapshot but missing from its key store are skipped. -/
def restoreInPlace (h : MlsGroupHandler M) (s : MlsStateSnapshot M) : MlsGroupHandler M :=
  { h with
    provider := s.storage
    groups := s.groupIds.foldl (fun t gid =>
      match M.loadGroup gid s.storage with
      | .ok (some g) => t.insert gid g
      | _ => t) h.groups }

end MlsGroupHandler

end Variance

/-! What openmls promises. -/

namespace Variance

/-! The slot of the pending commit. `CommitSlot M` is what openmls documents of it: `add_members`
fills it with the commit it returns together with its Welcome, merging applies that commit and
empties the slot, clearing empties it with nothing applied, another member's commit empties it, and
nothing else touches it. -/

/-- `commitOf` is the commit that a commit message is, or that a Welcome belongs to; `applied` lists
the commits whose result a group's current epoch is (its transcript). -/
structure CommitSlot (M : OpenMls) where
  commitOf : M.Message → Option M.Commit
  applied : M.Group → List M.Commit
  add_ok : ∀ {d rng kps p g c w p' g'}, M.addMembers d rng kps p g = (.ok (c, w), p', g') →
    applied g' = applied g ∧
      ∃ k, M.pendingCommit g' = some k ∧ commitOf c = some k ∧ commitOf w = some k
  add_error : ∀ {d rng kps p g e p' g'}, M.addMembers d rng kps p g = (.error e, p', g') →
    applied g' = applied g ∧ M.pendingCommit g' = M.pendingCommit g
  merge : ∀ {p g k}, M.pendingCommit g = some k → ∃ p' g', M.mergePendingCommit p g = (.ok (), p', g') ∧
    M.pendingCommit g' = none ∧ applied g' = applied g ++ [k]
  clear : ∀ {p g k}, M.pendingCommit g = some k → ∃ p' g', M.clearPendingCommit p g = (.ok (), p', g') ∧
    M.pendingCommit g' = none ∧ applied g' = applied g
  leave : ∀ d rng p g, M.pendingCommit (M.leaveGroup d rng p g).2.2 = M.pendingCommit g ∧
    applied (M.leaveGroup d rng p g).2.2 = applied g
  create : ∀ d rng b p g, M.pendingCommit (M.createMessage d rng b p g).2.2 = M.pendingCommit g ∧
    applied (M.createMessage d rng b p g).2.2 = applied g
  process : ∀ m p g, M.pendingCommit (M.processMessage m p g).2.2 = M.pendingCommit g ∧
    applied (M.processMessage m p g).2.2 = applied g
  propose : ∀ q p g, M.pendingCommit (M.storePendingProposal q p g).2.2 = M.pendingCommit g ∧
    applied (M.storePendingProposal q p g).2.2 = applied g
  staged : ∀ k p g, M.pendingCommit (M.mergeStagedCommit k p g).2.2 = none ∨
    M.pendingCommit (M.mergeStagedCommit k p g).2.2 = M.pendingCommit g
  proposals_ok : ∀ {d rng p g c p' g'}, M.commitToPendingProposals d rng p g = (.ok c, p', g') →
    ∃ k, M.pendingCommit g' = some k
  proposals_error : ∀ {d rng p g e p' g'}, M.commitToPendingProposals d rng p g = (.error e, p', g') →
    M.pendingCommit g' = M.pendingCommit g

variable {M : OpenMls}

/-- The pending commit of a group, if the group is live and has one. -/
def MlsGroupHandler.slot (h : MlsGroupHandler M) (gid : String) : Option M.Commit :=
  (h.groups[gid]?).bind M.pendingCommit

/-! What an ideal MLS promises of epochs and rosters: an add moves a group on by one epoch, and its Welcome leads
into exactly the group that the add makes. -/

def OpenMls.dids (M : OpenMls) (g : M.Group) : List Did := (M.members g).map (·.2)

/-- `leads w g`: the Welcome leads into the group as it stands. -/
structure GroupEpochs (M : OpenMls) where
  credential : M.KeyPackage → Did
  leads : M.Message → M.Group → Prop
  new : ∀ {d id rng p g p'}, M.newWithGroupId d id rng p = (.ok g, p') →
    M.epoch g = 0 ∧ M.dids g = [d] ∧ M.pendingProposals g = []
  /-- An add that nothing else is pending for merges. -/
  add : ∀ {d rng k p g c w p₁ g₁}, M.addMembers d rng [k] p g = (.ok (c, w), p₁, g₁) → M.pendingProposals g = [] →
    ∃ p₂ g₂, M.mergePendingCommit p₁ g₁ = (.ok (), p₂, g₂) ∧ M.epoch g₂ = M.epoch g + 1 ∧
      (∀ x, x ∈ M.dids g₂ ↔ x ∈ M.dids g ∨ x = credential k) ∧ M.pendingProposals g₂ = [] ∧ leads w g₂
  add_error : ∀ {d rng k p g e p' g'}, M.addMembers d rng [k] p g = (.error e, p', g') →
    M.epoch g' = M.epoch g ∧ M.dids g' = M.dids g ∧ M.pendingProposals g' = M.pendingProposals g
  join : ∀ {m g w p staged p₁ j p₂}, leads m g → M.extractWelcome m = some w →
    M.newFromWelcome w p = (.ok staged, p₁) → M.intoGroup staged p₁ = (.ok j, p₂) →
    M.epoch j = M.epoch g ∧ ∀ x, x ∈ M.dids j ↔ x ∈ M.dids g
  /-- Somebody can join. -/
  joins : ∀ {m g}, leads m g → ∃ w p staged p₁ j p₂, M.extractWelcome m = some w ∧
    M.newFromWelcome w p = (.ok staged, p₁) ∧ M.intoGroup staged p₁ = (.ok j, p₂)

/-! What an ideal MLS promises of key packages: the private part of one serves exactly the Welcome it was
made for, once. -/

/-- `holds p k`: the key store has the private part of `k`; `stored p g`: it has a group of that id. -/
structure JoinKeys (M : OpenMls) where
  holds : M.Provider → M.KeyPackage → Prop
  stored : M.Provider → String → Prop
  /-- The message is a Welcome to the group of that id, made for that key package. -/
  welcomes : M.Message → M.KeyPackage → String → Prop
  build_ok : ∀ {d rng p k p'}, M.buildKeyPackage d rng p = (.ok k, p') →
    holds p' k ∧ (∀ j, holds p j → holds p' j) ∧ ∀ g, stored p' g ↔ stored p g
  build_error : ∀ {d rng p e p'}, M.buildKeyPackage d rng p = (.error e, p') →
    (∀ j, holds p j → holds p' j) ∧ ∀ g, stored p' g ↔ stored p g
  add : ∀ {d rng k p g c w p' g'}, M.addMembers d rng [k] p g = (.ok (c, w), p', g') →
    welcomes w k (M.groupId g)
  /-- The private part goes with the join. -/
  join : ∀ {m k g p}, welcomes m k g → holds p k → ¬ stored p g → ∃ w staged p₁ group p₂,
    M.extractWelcome m = some w ∧ M.newFromWelcome w p = (.ok staged, p₁) ∧
      M.intoGroup staged p₁ = (.ok group, p₂) ∧ M.groupId group = g ∧
      (∀ j, holds p j → j ≠ k → holds p₂ j) ∧ ∀ g', stored p₂ g' ↔ stored p g' ∨ g' = g
  validate : ∀ {k k'}, M.validateKeyPackage k = .ok k' → k' = k
  package : ∀ {k b}, M.serializeKeyPackage k = .ok b → M.deserializeKeyPackage b = .ok k
  message : ∀ {m b}, M.serializeMessage m = .ok b → M.deserializeMessage b = .ok m

/-- A Welcome is to one group, whoever joins with it. -/
structure WelcomeGroup (M : OpenMls) where
  groupOf : M.Message → Option String
  join : ∀ {m w p staged p₁ group p₂}, M.extractWelcome m = some w → M.newFromWelcome w p = (.ok staged, p₁) →
    M.intoGroup staged p₁ = (.ok group, p₂) → groupOf m = some (M.groupId group)

end Variance
