import Variance.Spec.CrashWorld
import Variance.Spec.History
import Variance.Spec.Olm

/-! The start of a process with all that can fail in it (`AppState::from_identity`, `restore_crypto_state`,
`register_with_network`), and what it writes over what it has read. -/

namespace Variance

/-- What fails when a process starts: a read, or a value that does not deserialize. A group that does not load is a
matter of `loadGroup`. -/
structure StartFaults where
  /-- `load_olm_pickle_sync`. -/
  loadOlmPickle : Bool
  /-- The pickle that was chosen. -/
  accountPickle : Bool
  loadSessionPickles : Bool
  sessionPickle : Did → Bool
  fetchMlsState : Bool
  /-- JSON or hex of the snapshot. -/
  mlsSnapshot : Bool
  /-- The signature keypair, after the key store has been replaced. -/
  storeKeypair : Bool
  saveIdentity : Bool

def noStartFaults : StartFaults := ⟨false, false, false, fun _ => false, false, false, false, false⟩

namespace DirectMessageHandler
variable {O : Olm}

/-- The pickle of the store, or that of the identity file when there is none or it cannot be read. -/
def startAccount (h : DirectMessageHandler O) (f : StartFaults) (identityFile : O.Account) : O.Account :=
  if f.loadOlmPickle then identityFile else h.restoredAccount identityFile

/-- A session whose pickle is corrupted is passed over. -/
def restoreSessionsFrom (h : DirectMessageHandler O) (f : StartFaults) : DirectMessageHandler O :=
  if f.loadSessionPickles then h
  else { h with sessions :=
    (h.sessionPickles.toList.filter fun e => !f.sessionPickle e.1).foldl (fun t e => t.insert e.1 e.2) h.sessions }

def startWith (h : DirectMessageHandler O) (env : Env) (f : StartFaults) (identityFile : O.Account) :
    DirectMessageHandler O :=
  let account := O.generateOneTimeKeys env.rng 50 (h.startAccount f identityFile)
  let account := O.generateFallbackKey (env.rng + 50) account
  let h := { h with account := O.markKeysAsPublished account, sessions := ∅ }
  (h.persistAccount env).restoreSessionsFrom f

end DirectMessageHandler

/-- A node with its durable state. The last four fields are kept for the record: the groups that have been in the
snapshot and that we have not left since, the last pickle that was written and which of the two stores have it, and
whether the process that runs is without a group of the snapshot. -/
structure StartupWorld (M : OpenMls) (O : Olm) where
  up : Bool
  app : App M O
  /-- The tree `mls_state`. -/
  snapshot : Option (MlsStateSnapshot M)
  identityFile : O.Account
  owed : List String
  lastPickle : O.Account
  inStore : Bool
  inFile : Bool
  bare : Bool

inductive StartupEvent
  | serve (e : ClientEvent)
  | sendDirect (env : Env) (recipientDid : Did) (found : Except String IdentityFound) (content : MessageContent)
  | receiveDirect (env : Env) (message : DirectMessage)
  | rotateFallbackKey (env : Env)
  /-- The debounced persister, or a flush of it. -/
  | persist (env : Env)
  /-- The process dies, if one is running, and a new one starts. -/
  | restart (env : Env) (f : StartFaults)

/-- `MlsGroup::load` finds the group in the snapshot. -/
def MlsStateSnapshot.loads {M : OpenMls} (s : MlsStateSnapshot M) (gid : String) : Bool :=
  match M.loadGroup gid s.storage with
  | .ok (some _) => true
  | _ => false

/-- The step took us out of the group: we unsubscribed from its topic, as a leave, an abandon and a delete do and the
listener when the group has removed us; or it was reinitialised under a new id. -/
def Node.leftIn {M : OpenMls} (n n' : Node M) (e : ClientEvent) (gid : String) : Bool :=
  (n'.effects.drop n.effects.length).contains (.unsubscribe (groupTopic gid)) ||
    match e with
    | .event (.reinitializeGroup _ _ id) => id = gid && !n'.mls.groups.contains gid
    | _ => false

namespace StartupWorld
variable {M : OpenMls} {O : Olm} (W : Wire) (blank : M.Provider)

def serve (w : StartupWorld M O) (e : ClientEvent) : StartupWorld M O :=
  let n := w.app.node.serve W e
  { w with
    app := { w.app with node := n }
    owed := w.owed.filter fun gid => !w.app.node.leftIn n e gid }

/-- The store has a new pickle. -/
def pickled (w : StartupWorld M O) (env : Env) (app : App M O) : StartupWorld M O :=
  if env.faults "olm_account_pickle" app.dms.localDid then { w with app }
  else { w with app, lastPickle := app.dms.account, inStore := true, inFile := false }

/-- The account is written when the pool has been filled up. -/
def receiveDirect (w : StartupWorld M O) (env : Env) (message : DirectMessage) : StartupWorld M O :=
  let app := w.app.receiveDirect W env message
  match (w.app.handler.receiveMessage W env message).1 with
  | .ok _ => if message.olmMessageType = 0 then w.pickled env app else { w with app }
  | .error _ => { w with app }

def rotateFallbackKey (w : StartupWorld M O) (env : Env) : StartupWorld M O :=
  w.pickled env (w.app.withHandler (w.app.handler.rotateFallbackKey env))

/-- `export_state`, then `store_mls_state`; a failure is only logged. -/
def storeMlsState (w : StartupWorld M O) (env : Env) : StartupWorld M O :=
  if env.faults "mls_state" w.app.node.localDid then w
  else
    let s := w.app.node.mls.exportState
    { w with snapshot := some s, owed := w.owed ++ s.groupIds }

/-- The handler of a new process, whose key store is `blank`, with as much of the snapshot as can be restored. -/
def restoredMls (w : StartupWorld M O) (f : StartFaults) : MlsGroupHandler M :=
  let mls : MlsGroupHandler M := ⟨w.app.node.localDid, blank, ∅, ∅⟩
  if f.fetchMlsState then mls
  else match w.snapshot with
    | none => mls
    | some s =>
      if f.mlsSnapshot then mls
      else if f.storeKeypair then { mls with provider := s.storage }
      else mls.restoreInPlace s

/-- The snapshot can be read, and every group that is owed loads from it. -/
def restores (w : StartupWorld M O) (f : StartFaults) : Bool :=
  match w.snapshot with
  | none => w.owed = []
  | some s => w.owed = [] || !f.fetchMlsState && !f.mlsSnapshot && !f.storeKeypair &&
      w.owed.all s.loads

/-- The key package that a start announces; the state is exported only when there is one. -/
def announces (mls : MlsGroupHandler M) (env : Env) : Bool :=
  match (mls.generateKeyPackage env.rng).1 with
  | .ok kp => (Except.toOption (M.serializeKeyPackage kp)).isSome
  | .error _ => false

/-- `restore_crypto_state`, and what `start_node` writes of the account. -/
def restored (w : StartupWorld M O) (env : Env) (f : StartFaults) : StartupWorld M O :=
  let dms := w.app.handler.startWith env f w.identityFile
  let inStore := !env.faults "olm_account_pickle" dms.localDid
  let inFile := !f.saveIdentity
  { w with
    up := true
    app := ⟨CrashWorld.resubscribe { w.app.node with mls := w.restoredMls blank f }, dms⟩
    identityFile := if inFile then dms.account else w.identityFile
    lastPickle := if inStore || inFile then dms.account else w.lastPickle
    inStore := inStore || !inFile && w.inStore
    inFile := inFile || !inStore && w.inFile
    bare := !w.restores f }

/-- `register_with_network`. -/
def register (w : StartupWorld M O) (env : Env) : StartupWorld M O :=
  let mls := (w.app.node.mls.generateKeyPackage env.rng).2
  let registered : StartupWorld M O := { w with app := { w.app with node := { w.app.node with mls } } }
  if announces w.app.node.mls env then registered.storeMlsState env else registered

/-- Nothing starts on a malformed pickle. -/
def restart (w : StartupWorld M O) (env : Env) (f : StartFaults) : StartupWorld M O :=
  if f.accountPickle then { w with up := false }
  else (w.restored blank env f).register env

/-- Nothing happens in a process that is not running. -/
def step (w : StartupWorld M O) (e : StartupEvent) : StartupWorld M O :=
  match e with
  | .restart env f => w.restart blank env f
  | .serve e => if w.up then w.serve W e else w
  | .sendDirect env d found content => if w.up then { w with app := w.app.sendDirect W env d found content } else w
  | .receiveDirect env m => if w.up then w.receiveDirect W env m else w
  | .rotateFallbackKey env => if w.up then w.rotateFallbackKey env else w
  | .persist env => if w.up then w.storeMlsState env else w

/-! What a start may not do -/

/-- The groups that are owed are in the snapshot after the step; and a process that has started has the identity and
every private one-time key of the last pickle that was written. -/
structure Kept (S : KeyStore O) (w : StartupWorld M O) (e : StartupEvent) : Prop where
  groups : ∀ gid ∈ (w.step W blank e).owed, ∃ s, (w.step W blank e).snapshot = some s ∧ gid ∈ s.groupIds
  account : ∀ env f, e = .restart env f → (w.step W blank e).up = true →
    O.identityKey (w.step W blank e).app.dms.account = O.identityKey w.lastPickle ∧
      ∀ k, S.holds w.lastPickle k → S.holds (w.step W blank e).app.dms.account k

/-- The start writes the snapshot anew. -/
def exports (w : StartupWorld M O) (env : Env) (f : StartFaults) : Bool :=
  announces (w.restoredMls blank f) env && !env.faults "mls_state" w.app.node.localDid

/-- The store whose pickle a start takes has the last one written. -/
def current (w : StartupWorld M O) (f : StartFaults) : Bool :=
  if f.loadOlmPickle || (w.app.dms.olmPickle[w.app.dms.localDid]?).isNone then w.inFile else w.inStore

/-- A start that restores a group less writes no snapshot, and neither does the process that it leaves running; and a
start takes the last pickle, in which there is room for the keys that it makes. -/
def Careful (S : KeyStore O) (w : StartupWorld M O) : StartupEvent → Prop
  | .restart env f => f.accountPickle = true ∨
      (w.restores f = true ∨ w.exports blank env f = false) ∧ w.current f = true ∧
        S.size (w.app.handler.startAccount f w.identityFile) + 50 ≤ S.limit
  | .persist env => w.up = true → w.bare = true → env.faults "mls_state" w.app.node.localDid = true
  | _ => True

/-- Any durable state, and nothing running on it. What is owed is what the snapshot has. -/
structure Installed (w : StartupWorld M O) : Prop where
  down : w.up = false
  owed : w.owed = match w.snapshot with
    | none => []
    | some s => s.groupIds
  inStore : w.inStore = true → w.app.dms.olmPickle[w.app.dms.localDid]? = some w.lastPickle
  inFile : w.inFile = true → w.identityFile = w.lastPickle

end StartupWorld

def startupSys (M : OpenMls) (O : Olm) (W : Wire) (blank : M.Provider) :
    StepSystem.Sys (StartupWorld M O) StartupEvent where
  init := StartupWorld.Installed
  step := StartupWorld.step W blank

end Variance
