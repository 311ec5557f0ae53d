import Variance.Lib.Text
import Variance.Lib.Run
import Variance.Spec.Direct
import Variance.Spec.Reinit

/-! The MLS state as bytes (`mls.rs`): the key store's entries in hex and the ids of the groups, as JSON, and the
way back into a handler. `exportState` and `restoreInPlace` of `Mls` are the same without the bytes. -/

namespace Variance

/-- `MemoryStorage.values`. -/
abbrev KeyValues := Std.ExtTreeMap Bytes Bytes

/-- `MlsStateSnapshot` as it is serialized. -/
structure StateSnapshot where
  groupIds : List String
  storageEntries : List (String × String)
deriving DecidableEq

/-- `serde_json` on snapshots, and what `hex` says of a text that it cannot decode. -/
structure StateCodec where
  toVec : StateSnapshot → Except String Bytes
  fromSlice : Bytes → Except String StateSnapshot
  hexError : String → String

/-- A snapshot is serialized, and read back. -/
def StateCodec.Lawful (C : StateCodec) : Prop := ∀ s, ∃ b, C.toVec s = .ok b ∧ C.fromSlice b = .ok s

/-- `OpenMlsRustCrypto`: a new one, its key store, and `SignatureKeyPair::store` in it. `idBytes` is the id of a
group, of which `groupId` is the lossy text. -/
structure MlsKeyStore (M : OpenMls) where
  default : M.Provider
  values : M.Provider → KeyValues
  withValues : M.Provider → KeyValues → M.Provider
  storeKeypair : Did → M.Provider → Except String M.Provider
  idBytes : M.Group → Bytes

/-- The order in which a hash map is iterated. -/
structure HashOrder (α : Type) where
  order : List α → List α
  perm : ∀ l, (order l).Perm l

def StateCodec.decodeHex (C : StateCodec) (what s : String) : Except MsgError Bytes :=
  match Text.unhexChars s.toList with
  | some b => .ok b
  | none => .error (.mlsGroup ("Corrupted MLS snapshot: bad hex " ++ what ++ ": " ++ C.hexError s))

/-- The loop over the entries, into a new map. -/
def StateCodec.decodeEntries (C : StateCodec) : List (String × String) → KeyValues → Except MsgError KeyValues
  | [], map => .ok map
  | (kHex, vHex) :: entries, map =>
    match C.decodeHex "key" kHex with
    | .error e => .error e
    | .ok k => match C.decodeHex "value" vHex with
      | .error e => .error e
      | .ok v => C.decodeEntries entries (map.insert k v)

def hexText (b : Bytes) : String := String.ofList (Text.hexChars b)

namespace MlsGroupHandler
variable {M : OpenMls}

def new (K : MlsKeyStore M) (localDid : Did) : Except MsgError (MlsGroupHandler M) :=
  match K.storeKeypair localDid K.default with
  | .error e => .error (.mlsKeyPackage ("Failed to store signature keypair: " ++ e))
  | .ok provider => .ok ⟨localDid, provider, ∅, ∅⟩

/-- `export_state`. -/
def exportBytes (h : MlsGroupHandler M) (K : MlsKeyStore M) (C : StateCodec) (ids : HashOrder String)
    (entries : HashOrder (Bytes × Bytes)) : Except MsgError Bytes :=
  let snapshot : StateSnapshot :=
    { groupIds := ids.order (h.groups.toList.map (·.1))
      storageEntries := (entries.order (K.values h.provider).toList).map fun e => (hexText e.1, hexText e.2) }
  (C.toVec snapshot).mapError fun e => .mlsGroup ("Failed to serialize MLS state snapshot: " ++ e)

/-- `MlsGroup::load` of each listed group; what is missing or does not load is passed over with a warning. -/
def reload (provider : M.Provider) : List String → ℕ → SledTree M.Group → ℕ × SledTree M.Group
  | [], restored, groups => (restored, groups)
  | gid :: gids, restored, groups =>
    match M.loadGroup gid provider with
    | .ok (some group) => reload provider gids (restored + 1) (groups.insert gid group)
    | .ok none => reload provider gids restored groups
    | .error _ => reload provider gids restored groups

/-- `restore_in_place`: everything is decoded before anything is replaced. -/
def restoreBytes (h : MlsGroupHandler M) (K : MlsKeyStore M) (C : StateCodec) (stateBytes : Bytes) :
    Except MsgError ℕ × MlsGroupHandler M :=
  match C.fromSlice stateBytes with
  | .error e => (.error (.mlsGroup ("Failed to deserialize MLS state snapshot: " ++ e)), h)
  | .ok snapshot =>
    match C.decodeEntries snapshot.storageEntries ∅ with
    | .error e => (.error e, h)
    | .ok restoredMap =>
      let provider := K.withValues h.provider restoredMap
      match K.storeKeypair h.localDid provider with
      | .error e => (.error (.mlsKeyPackage ("Failed to re-store signature keypair after restore: " ++ e)),
          { h with provider := provider })
      | .ok provider =>
        let r := reload provider snapshot.groupIds 0 h.groups
        (.ok r.1, { h with provider := provider, groups := r.2 })

end MlsGroupHandler

/-! What `openmls` is relied on for -/

namespace MlsKeyStore
variable {M : OpenMls} (K : MlsKeyStore M)

/-- The id of the group is text. -/
def Utf8Id (g : M.Group) : Prop := K.idBytes g = utf8Bytes (M.groupId g)

/-- The group loads as it stands. -/
def Holds (p : M.Provider) (g : M.Group) : Prop := K.Utf8Id g ∧ M.loadGroup (M.groupId g) p = .ok (some g)

/-- From one key store to another: the groups but for those of an id, and the keypair, are as they were. -/
structure Spares (p p' : M.Provider) (but : Set String) : Prop where
  loads : ∀ id, id ∉ but → M.loadGroup id p' = M.loadGroup id p
  keypair : ∀ did, K.storeKeypair did p = .ok p → K.storeKeypair did p' = .ok p'

/-- A call on a group that loads leaves it so, whatever it has made of it. -/
def Durable {α : Type} (op : M.GroupOp α) : Prop :=
  ∀ p g, K.Holds p g → M.groupId (op p g).2.2 = M.groupId g ∧ K.Holds (op p g).2.1 (op p g).2.2 ∧
    K.Spares p (op p g).2.1 {M.groupId g}

/-- A provider is its key store; a keypair that is stored stays, and storing it again changes nothing; and every call
writes the groups it changes. -/
structure Lawful : Prop where
  withValues_values : ∀ p p', K.withValues p (K.values p') = p'
  storeKeypair : ∀ did p, ∃ p', K.storeKeypair did p = .ok p' ∧ K.storeKeypair did p' = .ok p' ∧
    ∀ id, M.loadGroup id p' = M.loadGroup id p
  buildKeyPackage : ∀ did rng p, K.Spares p (M.buildKeyPackage did rng p).2 ∅
  create : ∀ did id rng p g p', M.newWithGroupId did id rng p = (.ok g, p') →
    M.groupId g = id ∧ K.Holds p' g ∧ K.Spares p p' {id}
  create_error : ∀ did id rng p e p', M.newWithGroupId did id rng p = (.error e, p') → K.Spares p p' ∅
  stage : ∀ w p, K.Spares p (M.newFromWelcome w p).2 ∅
  join : ∀ s p g p', M.intoGroup s p = (.ok g, p') → (K.Utf8Id g → K.Holds p' g) ∧ K.Spares p p' {M.groupId g}
  join_error : ∀ s p e p', M.intoGroup s p = (.error e, p') → K.Spares p p' ∅
  delete : ∀ p g, K.Holds p g → K.Spares p (M.deleteGroup g p) {M.groupId g}
  addMembers : ∀ did rng kps, K.Durable (M.addMembers did rng kps)
  removeMembers : ∀ did rng is, K.Durable (M.removeMembers did rng is)
  mergePendingCommit : K.Durable M.mergePendingCommit
  clearPendingCommit : K.Durable M.clearPendingCommit
  createMessage : ∀ did rng b, K.Durable (M.createMessage did rng b)
  processMessage : ∀ m, K.Durable (M.processMessage m)
  storePendingProposal : ∀ q, K.Durable (M.storePendingProposal q)
  mergeStagedCommit : ∀ c, K.Durable (M.mergeStagedCommit c)
  commitToPendingProposals : ∀ did rng, K.Durable (M.commitToPendingProposals did rng)
  leaveGroup : ∀ did rng, K.Durable (M.leaveGroup did rng)
  selfUpdate : ∀ did rng, K.Durable (M.selfUpdate did rng)

end MlsKeyStore

/-! Runs -/

inductive MlsStep (M : OpenMls)
  | generateKeyPackage (rng : ℕ)
  | createGroup (groupId : String) (rng : ℕ)
  | joinGroupFromWelcome (welcome : M.Message)
  | addMember (groupId : String) (keyPackage : M.KeyPackage) (rng : ℕ)
  | addMemberDeferred (groupId : String) (keyPackage : M.KeyPackage) (rng : ℕ)
  | confirmAddMember (groupId : String)
  | cancelAddMember (groupId : String)
  | removeMember (groupId : String) (memberIndex rng : ℕ)
  | encryptMessage (groupId : String) (plaintext : Bytes) (rng : ℕ)
  | processMessage (groupId : String) (message : M.Message)
  | leaveGroup (groupId : String) (rng : ℕ)
  | selfUpdate (groupId : String) (rng : ℕ)
  | commitPendingProposals (groupId : String) (rng : ℕ)
  | removeGroup (groupId : String)

namespace MlsGroupHandler
variable {M : OpenMls}

def next (h : MlsGroupHandler M) : MlsStep M → MlsGroupHandler M
  | .generateKeyPackage rng => (h.generateKeyPackage rng).2
  | .createGroup groupId rng => (h.createGroup groupId rng).2
  | .joinGroupFromWelcome welcome => (h.joinGroupFromWelcome welcome).2
  | .addMember groupId keyPackage rng => (h.addMember groupId keyPackage rng).2
  | .addMemberDeferred groupId keyPackage rng => (h.addMemberDeferred groupId keyPackage rng).2
  | .confirmAddMember groupId => (h.confirmAddMember groupId).2
  | .cancelAddMember groupId => (h.cancelAddMember groupId).2
  | .removeMember groupId memberIndex rng => (h.removeMember groupId memberIndex rng).2
  | .encryptMessage groupId plaintext rng => (h.encryptMessage groupId plaintext rng).2
  | .processMessage groupId message => (h.processMessage groupId message).2
  | .leaveGroup groupId rng => (h.leaveGroup groupId rng).2
  | .selfUpdate groupId rng => (h.selfUpdate groupId rng).2
  | .commitPendingProposals groupId rng => (h.commitPendingProposals groupId rng).2
  | .removeGroup groupId => h.removeGroup groupId

/-- A group that is joined has text for an id; one that is created is given it. -/
def JoinsText (K : MlsKeyStore M) (h : MlsGroupHandler M) : MlsStep M → Prop
  | .joinGroupFromWelcome welcome => ∀ w staged p g p', M.extractWelcome welcome = some w →
    M.newFromWelcome w h.provider = (.ok staged, p) → M.intoGroup staged p = (.ok g, p') → K.Utf8Id g
  | _ => True

/-- A snapshot restored into a new handler of the same DID makes it the one that was exported. -/
def Restores (K : MlsKeyStore M) (C : StateCodec) (h : MlsGroupHandler M) : Prop :=
  ∀ ids entries fresh, new K h.localDid = .ok fresh → ∃ b, h.exportBytes K C ids entries = .ok b ∧
    fresh.restoreBytes K C b = (.ok h.groups.size, h)

/-- The entries that a snapshot lists are hex. -/
def AllHex (s : StateSnapshot) : Prop :=
  ∀ e ∈ s.storageEntries, (Text.unhexChars e.1.toList).isSome ∧ (Text.unhexChars e.2.toList).isSome

/-- The group with the id in the key store, if it loads. -/
def loaded (p : M.Provider) (gid : String) : Option M.Group :=
  match M.loadGroup gid p with
  | .ok g => g
  | .error _ => none

/-- What is to be had of any bytes, in any state: an error for what is no snapshot or has an entry that is not hex, and
then nothing is changed; otherwise every listed group that loads is live as it loads, the others are as they were, and
the result counts those that load. -/
structure Atomic (K : MlsKeyStore M) (C : StateCodec) (h : MlsGroupHandler M) (b : Bytes) : Prop where
  unchanged : ∀ e, (h.restoreBytes K C b).1 = .error e → (h.restoreBytes K C b).2 = h
  refused : (∃ e, (h.restoreBytes K C b).1 = .error e) ↔ ∀ s, C.fromSlice b = .ok s → ¬ AllHex s
  restored : ∀ s n, C.fromSlice b = .ok s → (h.restoreBytes K C b).1 = .ok n →
    let h' := (h.restoreBytes K C b).2
    n = s.groupIds.countP (fun gid => (loaded h'.provider gid).isSome) ∧
      ∀ gid, h'.groups[gid]? =
        if gid ∈ s.groupIds then (loaded h'.provider gid).or h.groups[gid]? else h.groups[gid]?

end MlsGroupHandler

/-- A handler of a DID. -/
def mlsStateSys {M : OpenMls} (K : MlsKeyStore M) (localDid : Did) :
    StepSystem.Sys (MlsGroupHandler M) (MlsStep M) where
  init h := MlsGroupHandler.new K localDid = .ok h
  step := MlsGroupHandler.next

end Variance
