import Mathlib.Logic.Function.Basic
import Variance.Lib.Run
import Variance.Spec.Direct
import Variance.Spec.History
import Variance.Spec.Olm

/-! Two peers, `false` and `true`, and the direct messages between them. What was sent waits until the
network takes it from any place in the queue. -/

namespace Variance

structure SentDm where
  message : DirectMessage
  content : MessageContent

structure OpenedDm where
  sent : SentDm
  result : Except MsgError MessageContent

structure PeerPair (O : Olm) where
  peer : Bool → DirectMessageHandler O
  /-- What each has sent and the other has not received. -/
  net : Bool → List SentDm
  opened : List OpenedDm

inductive PairOp (O : Olm)
  | ensure (x : Bool) (env : Env) (found : Except String IdentityFound)
  | send (x : Bool) (env : Env) (content : MessageContent)
  | deliver (x : Bool) (env : Env) (i : ℕ)
  | restart (x : Bool) (env : Env) (identityFile : O.Account)
  | lose (x : Bool) (env : Env) (identityFile : O.Account)

namespace PeerPair
variable {O : Olm}

def setPeer (w : PeerPair O) (x : Bool) (h : DirectMessageHandler O) : PeerPair O :=
  { w with peer := Function.update w.peer x h }

def send (W : Wire) (did : Bool → Did) (w : PeerPair O) (x : Bool) (env : Env) (content : MessageContent) :
    PeerPair O :=
  match (w.peer x).sendMessage W env (did (!x)) content with
  | (.error _, h) => w.setPeer x h
  | (.ok message, h) =>
    { w.setPeer x h with net := Function.update w.net x (w.net x ++ [⟨message, content⟩]) }

/-- The `i`-th message that waits for `x`. -/
def deliver (W : Wire) (w : PeerPair O) (x : Bool) (env : Env) (i : ℕ) : PeerPair O :=
  match (w.net (!x))[i]? with
  | none => w
  | some sent =>
    { w.setPeer x ((w.peer x).receiveMessage W env sent.message).2 with
      net := Function.update w.net (!x) ((w.net (!x)).eraseIdx i)
      opened := ⟨sent, ((w.peer x).openMessage W env sent.message).1⟩ :: w.opened }

def step (W : Wire) (did : Bool → Did) (w : PeerPair O) : PairOp O → PeerPair O
  | .ensure x env found => w.setPeer x ((w.peer x).ensureOlmSession env (did (!x)) found).2
  | .send x env content => w.send W did x env content
  | .deliver x env i => w.deliver W x env i
  | .restart x env file => w.setPeer x ((w.peer x).startUp env file).2
  | .lose x env file => w.setPeer x ({ w.peer x with sessionPickles := ∅ }.startUp env file).2

/-- Two accounts and nothing between them. -/
structure Strangers (did : Bool → Did) (w : PeerPair O) : Prop where
  distinct : did false ≠ did true
  localDid : ∀ x, (w.peer x).localDid = did x
  pickle : ∀ (x : Bool) (a : O.Account), (w.peer x).olmPickle[did x]? = some a →
    O.identityKey a = O.identityKey (w.peer x).account
  memory : ∀ x, (w.peer x).sessions[did (!x)]? = none
  disk : ∀ x, (w.peer x).sessionPickles[did (!x)]? = none
  net : ∀ x, w.net x = []
  opened : w.opened = []

/-- An answer carries the peer's own identity key, and a process starts with its own identity. -/
def Honest (w : PeerPair O) : PairOp O → Prop
  | .ensure x _ found => ∀ f, found = .ok f →
    f.olmIdentityKey = (O.identityKey (w.peer (!x)).account).bytes
  | .restart x _ file | .lose x _ file => O.identityKey file = O.identityKey (w.peer x).account
  | _ => True

end PeerPair

def pairSys (O : Olm) (W : Wire) (did : Bool → Did) : StepSystem.Sys (PeerPair O) (PairOp O) where
  init := PeerPair.Strangers did
  step := PeerPair.step W did

/-! The conversation as each of the two has it -/

/-- `x` wrote it to the other. -/
def DirectMessage.Sent (did : Bool → Did) (x : Bool) (m : DirectMessage) : Prop :=
  m.senderDid = did x ∧ m.recipientDid = did (!x)

namespace PeerPair
variable {O : Olm}

/-- The message is in the history of `x`. -/
def Has (w : PeerPair O) (x : Bool) (m : DirectMessage) : Prop :=
  (w.peer x).storage.directMessages[m.key]? = some m

/-- What `x` is shown for a message. -/
def content (w : PeerPair O) (x : Bool) (id : String) : Option MessageContent := (w.peer x).storage.plaintext[id]?

/-- As `Ulid::new` promises, a message gets an id that neither has seen. -/
def Numbered (did : Bool → Did) (w : PeerPair O) : PairOp O → Prop
  | .send x env _ => ∀ y, w.content y env.ulid = none ∧ ∀ timestamp,
    (w.peer y).storage.directMessages[LocalMessageStorage.directKey (did x) (did (!x)) timestamp env.ulid]? = none
  | _ => True

/-- What is to be stored can be. -/
def Written : PairOp O → Prop
  | .send _ env _ | .deliver _ env _ => ∀ tree key, env.faults tree key = false
  | _ => True

/-- What one has of the other is what the other wrote. -/
def Agree (did : Bool → Did) (w : PeerPair O) : Prop :=
  ∀ x m, m.Sent did (!x) → w.Has x m →
    w.Has (!x) m ∧ ∀ c, w.content x m.id = some c → w.content (!x) m.id = some c

/-- What one wrote is on its way, or the other has it with its content. -/
def Complete (did : Bool → Did) (w : PeerPair O) : Prop :=
  ∀ x m, m.Sent did x → w.Has x m → (∃ s ∈ w.net x, s.message = m) ∨
    w.Has (!x) m ∧ ∃ c, w.content x m.id = some c ∧ w.content (!x) m.id = some c

end PeerPair

/-- Two who have not written to each other yet. -/
def pairHistorySys (O : Olm) (W : Wire) (did : Bool → Did) : StepSystem.Sys (PeerPair O) (PairOp O) where
  init w := w.Strangers did ∧ ∀ x y m, m.Sent did y → ¬ w.Has x m
  step := PeerPair.step W did

end Variance
