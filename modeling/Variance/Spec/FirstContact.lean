import Mathlib.Logic.Function.Basic
import Variance.Lib.Run
import Variance.Spec.Direct
import Variance.Spec.PeerPair

/-! A node and everyone who sends it a first direct message: the answers it gives about its keys, the
messages made with them, and its router, which replenishes the keys one step at a time. -/

namespace Variance

/-- Where the node's own thread stands: starting (`restore_crypto_state`, `register_with_network`,
`save_identity`), then the router, which after a PreKey message generates ten keys, collects the unpublished
ones, marks them, advertises them and stores the account. -/
inductive KeyStage (O : Olm)
  | down
  | register (keys : List CurveKey) (pickle : O.Account)
  | saveFile (pickle : O.Account)
  | idle
  | generate
  | collect
  | mark (fresh : List CurveKey)
  | advertise (fresh : List CurveKey)
  | persist

def KeyStage.refilling {O : Olm} : KeyStage O → Bool
  | .generate | .collect | .mark _ | .advertise _ | .persist => true
  | _ => false

structure ContactWorld (O : Olm) where
  node : DirectMessageHandler O
  identity : IdentityHandler
  identityFile : O.Account
  stage : KeyStage O
  peers : Did → DirectMessageHandler O
  /-- The latest answer each requester has. -/
  answers : Did → Option IdentityFound
  net : List SentDm
  opened : List OpenedDm
  /-- Every key that was ever collected to be advertised. -/
  minted : List CurveKey
  /-- Who was given the key list that is advertised now. -/
  shownTo : Option Did
  /-- Who was given an answer, and the key he will take from it. -/
  led : List (Did × CurveKey)

inductive ContactOp (O : Olm)
  | request (d : Did)
  | greet (d : Did) (env : Env) (content : MessageContent)
  | deliver (env : Env) (i : ℕ)
  | receive (env : Env) (message : DirectMessage)
  | refill (env : Env) (reached : Bool)
  | rotate (env : Env)
  | restart (env : Env)

namespace ContactWorld
variable {O : Olm}

/-- What a process that starts now would restore. -/
def durable (w : ContactWorld O) : O.Account := w.node.restoredAccount w.identityFile

/-- The keys in the answers given now. -/
def advertised (w : ContactWorld O) : List CurveKey :=
  match w.identity.localIdentity with
  | none => []
  | some l => l.oneTimeKeys.filterMap CurveKey.ofBytes

/-- The answer to a requester, and the key `try_one_time_keys` will take from it. -/
def request (w : ContactWorld O) (d : Did) : ContactWorld O :=
  match w.identity.resolveDid w.node.localDid with
  | none => w
  | some found =>
    { w with
      answers := Function.update w.answers d (some found)
      shownTo := some d
      led := match found.oneTimeKeys.findSome? CurveKey.ofBytes with
        | none => w.led
        | some k => (d, k) :: w.led }

/-- A peer without a session makes one from its answer and sends its first message. -/
def greet (W : Wire) (w : ContactWorld O) (d : Did) (env : Env) (content : MessageContent) :
    ContactWorld O :=
  match w.answers d with
  | none => w
  | some found =>
    if d = w.node.localDid ∨ ((w.peers d).sessions[w.node.localDid]?).isSome then w
    else
      let h := ((w.peers d).ensureOlmSession env w.node.localDid (.ok found)).2
      match h.sendMessage W env w.node.localDid content with
      | (.error _, h) => { w with peers := Function.update w.peers d h }
      | (.ok message, h) =>
        { w with
          peers := Function.update w.peers d h
          net := w.net ++ [⟨message, content⟩] }

/-- The router takes a message; a PreKey message that was received well starts a replenishment. -/
def take (W : Wire) (w : ContactWorld O) (env : Env) (message : DirectMessage) : ContactWorld O :=
  let r := w.node.receiveMessage W env message
  { w with
    node := r.2
    stage := match r.1 with
      | .ok _ => if message.olmMessageType = 0 then .generate else .idle
      | .error _ => .idle }

def deliver (W : Wire) (w : ContactWorld O) (env : Env) (i : ℕ) : ContactWorld O :=
  match w.stage, w.net[i]? with
  | .idle, some sent =>
    { w.take W env sent.message with
      net := w.net.eraseIdx i
      opened := ⟨sent, (w.node.openMessage W env sent.message).1⟩ :: w.opened }
  | _, _ => w

def receive (W : Wire) (w : ContactWorld O) (env : Env) (message : DirectMessage) : ContactWorld O :=
  match w.stage with
  | .idle => w.take W env message
  | _ => w

/-- The next step of the node's own thread; `reached` tells whether the P2P loop, or the identity file,
took what it was given. -/
def refill (w : ContactWorld O) (env : Env) (reached : Bool) : ContactWorld O :=
  match w.stage with
  | .down | .idle => w
  | .register keys pickle =>
    { w with
      identity := if reached then .setLocalIdentity w.node.localDid (O.identityKey w.node.account).bytes
          (keys.map (·.bytes)) none else w.identity
      shownTo := none
      stage := .saveFile pickle }
  | .saveFile pickle => { w with identityFile := if reached then pickle else w.identityFile, stage := .idle }
  | .generate =>
    { w with
      node := { w.node with account := O.generateOneTimeKeys env.rng 10 w.node.account }
      stage := .collect }
  | .collect =>
    { w with
      stage := .mark (O.oneTimeKeys w.node.account)
      minted := O.oneTimeKeys w.node.account ++ w.minted }
  | .mark fresh =>
    { w with
      node := { w.node with account := O.markKeysAsPublished w.node.account }
      stage := .advertise fresh }
  | .advertise fresh =>
    { w with
      identity := if reached then w.identity.updateOneTimeKeys (fresh.map (·.bytes)) else w.identity
      shownTo := if reached then none else w.shownTo
      stage := .persist }
  | .persist => { w with node := w.node.persistAccount env, stage := .idle }

def rotate (w : ContactWorld O) (env : Env) : ContactWorld O :=
  match w.stage with
  | .down => w
  | _ => { w with node := w.node.rotateFallbackKey env }

/-- The process stops and starts; its P2P loop knows no identity yet. -/
def restart (w : ContactWorld O) (env : Env) : ContactWorld O :=
  let r := w.node.startUp env w.identityFile
  { w with
    node := r.2
    identity := ⟨none⟩
    shownTo := none
    stage := .register r.1 r.2.account
    minted := r.1 ++ w.minted }

def step (W : Wire) (w : ContactWorld O) : ContactOp O → ContactWorld O
  | .request d => w.request d
  | .greet d env content => w.greet W d env content
  | .deliver env i => w.deliver W env i
  | .receive env message => w.receive W env message
  | .refill env reached => w.refill env reached
  | .rotate env => w.rotate env
  | .restart env => w.restart env

/-- A node that never ran and peers that never heard of it. -/
structure Unmet (w : ContactWorld O) : Prop where
  stage : w.stage = .down
  identity : w.identity.localIdentity = none
  sessions : w.node.sessions = ∅
  pickles : w.node.sessionPickles = ∅
  account : O.identityKey w.durable = O.identityKey w.node.account
  file : O.identityKey w.identityFile = O.identityKey w.node.account
  peerDid : ∀ d, (w.peers d).localDid = d
  peerMemory : ∀ d, (w.peers d).sessions[w.node.localDid]? = none
  peerDisk : ∀ d, (w.peers d).sessionPickles[w.node.localDid]? = none
  answers : ∀ d, w.answers d = none
  net : w.net = []
  opened : w.opened = []
  minted : w.minted = []
  shownTo : w.shownTo = none
  led : w.led = []

/-- The RNG draws no key twice. -/
def FreshDraws (w : ContactWorld O) : ContactOp O → Prop
  | .restart env => ∀ k ∈ (w.node.startUp env w.identityFile).1, k ∉ w.minted
  | .refill .. => w.stage = .collect → ∀ k ∈ O.oneTimeKeys w.node.account, k ∉ w.minted
  | _ => True

end ContactWorld

def contactSys (O : Olm) (W : Wire) : StepSystem.Sys (ContactWorld O) (ContactOp O) where
  init := ContactWorld.Unmet
  step := ContactWorld.step W

end Variance
