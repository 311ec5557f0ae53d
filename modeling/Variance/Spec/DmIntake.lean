import Variance.Lib.Broadcast
import Variance.Spec.History
import Variance.Spec.Relay

/-! Direct messages on their way in: the node loop takes a request, hands it to a broadcast channel and acknowledges it
(`variance-p2p/src/node/event_handlers.rs`); the router subscribes to the channel when it starts
(`variance-app/src/node.rs`) and works its events off (`event_router/messaging.rs`). -/

namespace Variance

open Broadcast

inductive DirectMessageEvent
  | messageReceived (peer : PeerId) (message : DirectMessage)
  | messageSent (messageId : String) (recipient : Did)
  | deliveryNack (peer : PeerId) (messageId error : String)
  | deliveryFailed (messageId : String) (recipient : Did)
deriving DecidableEq

structure DirectMessageAck where
  messageId : String
  error : Option String
deriving DecidableEq

/-- `owed` is kept beside the rest: what was acknowledged without an error, and neither stored since nor refused to
the same peer. -/
structure DmIntake (M : OpenMls) (O : Olm) where
  app : App M O
  channel : Channel DirectMessageEvent
  replies : List (PeerId × DirectMessageAck)
  owed : List (PeerId × DirectMessage)

/-- `publish` is any other event of the node loop, `app` what else the node does in between. -/
inductive IntakeStep (M : OpenMls) (O : Olm)
  | inbound (peer : PeerId) (request : DirectMessage) (allowed : Bool)
  | publish (event : DirectMessageEvent)
  | startRouter
  | receive (env : Env)
  | app (op : AppOp M O)

namespace App
variable {M : OpenMls} {O : Olm}

/-- Once the listener has received a message, it lies in the store. -/
def Stores (W : Wire) (a : App M O) (env : Env) (m : DirectMessage) : Prop :=
  (a.handler.receiveMessage W env m).2.storage.directMessages[m.key]? = some m

instance (W : Wire) (a : App M O) (env : Env) (m : DirectMessage) : Decidable (a.Stores W env m) :=
  inferInstanceAs (Decidable (_ = _))

/-- It can be opened and written, or is there already. -/
def Storable (W : Wire) (a : App M O) (env : Env) (m : DirectMessage) : Prop :=
  ((∃ content, (a.handler.openMessage W env m).1 = .ok content) ∧ env.faults "direct_messages" m.key = false) ∨
    a.node.storage.directMessages[m.key]? = some m

end App

namespace DmIntake
variable {M : OpenMls} {O : Olm}

def start (app : App M O) (capacity : ℕ) : DmIntake M O := ⟨app, .new _ capacity, [], []⟩

/-- The handler of a request. -/
def inbound (s : DmIntake M O) (peer : PeerId) (request : DirectMessage) (allowed : Bool) : DmIntake M O :=
  if allowed then
    { s with
      channel := s.channel.send (.messageReceived peer request)
      replies := s.replies ++ [(peer, ⟨request.id, none⟩)]
      owed := s.owed ++ [(peer, request)] }
  else
    { s with
      replies := s.replies ++ [(peer, ⟨request.id, some "rate_limited"⟩)]
      owed := s.owed.filter fun e => ¬ (e.1 = peer ∧ e.2.id = request.id) }

/-- One turn of the listener: an event, or word that it has missed some. A message that cannot be received is only
logged. -/
def receive (W : Wire) (s : DmIntake M O) (env : Env) : DmIntake M O :=
  match s.channel.recv with
  | (.value (.messageReceived _ message), channel) =>
    { s with
      app := s.app.receiveDirect W env message
      channel := channel
      owed := if s.app.Stores W env message then s.owed.filter fun e => e.2 ≠ message else s.owed }
  | (_, channel) => { s with channel := channel }

def step (W : Wire) (s : DmIntake M O) : IntakeStep M O → DmIntake M O
  | .inbound peer request allowed => s.inbound peer request allowed
  | .publish event => { s with channel := s.channel.send event }
  | .startRouter => if s.channel.next = none then { s with channel := s.channel.subscribe } else s
  | .receive env => s.receive W env
  | .app (.receiveDirect ..) | .app (.restart ..) => s
  | .app op => { s with app := s.app.step W op }

/-- The router comes to the message, if it goes on receiving and `room` more events are sent before. -/
def Coming (s : DmIntake M O) (room : ℕ) (m : DirectMessage) : Prop :=
  ∃ peer, s.channel.Ahead room (.messageReceived peer m)

def Custody (s : DmIntake M O) : Prop := ∀ e ∈ s.owed, s.Coming 0 e.2

/-- After the step, the router comes to all that is owed; and when it has caught up, nothing is owed. -/
structure Kept (W : Wire) (s : DmIntake M O) (e : IntakeStep M O) : Prop where
  custody : (s.step W e).Custody
  settled : (s.step W e).channel.unread = 0 → (s.step W e).owed = []

/-- A request is acknowledged once the router has subscribed; an event is sent while all that is owed stays in the
channel, or is what it brings again; and what the router takes out can be stored, if it is owed, or comes again. -/
def Careful (W : Wire) (s : DmIntake M O) : IntakeStep M O → Prop
  | .inbound _ _ false => True
  | .inbound _ request true => (s.channel.next ≠ none ∧ 0 < s.channel.capacity) ∧
      ∀ e ∈ s.owed, e.2 = request ∨ s.Coming 1 e.2
  | .publish event => ∀ e ∈ s.owed, (∃ peer, event = .messageReceived peer e.2) ∨ s.Coming 1 e.2
  | .startRouter => True
  | .receive env =>
    match s.channel.recv with
    | (.value (.messageReceived _ message), channel) => (∃ e ∈ s.owed, e.2 = message) →
        s.app.Storable W env message ∨ ∃ peer, channel.Ahead 0 (.messageReceived peer message)
    | _ => True
  | .app _ => True

end DmIntake

def intakeSys (M : OpenMls) (O : Olm) (W : Wire) (capacity : ℕ) : StepSystem.Sys (DmIntake M O) (IntakeStep M O) where
  init s := ∃ app, s = .start app capacity
  step s e := s.step W e

end Variance

namespace Variance

/-! What a relay kept for us: the event router's listener for offline messages (`event_router/media.rs`) beside those
for direct and group messages that come in live. -/

inductive OfflineMessageEvent
  | fetchRequested (peer : PeerId) (mailboxToken : Bytes) (limit : UInt32)
  | messagesReceived (peer : PeerId) (messages : List OfflineMessageEnvelope) (hasMore : Bool)

/-- What the event router does about an event. `env` is what the step reads from outside. -/
inductive RouterAction
  | direct (env : Env) (m : DirectMessage)
  | group (env : Env) (m : GroupMessage)
  /-- `WsMessage::OfflineMessagesReceived`. -/
  | broadcastOfflineCount (count : ℕ)
  | requestOffline

/-- `spawn_offline_message_listener`. -/
def onOfflineMessage : OfflineMessageEvent → List RouterAction
  | .messagesReceived _ messages _ => [.broadcastOfflineCount messages.length]
  | .fetchRequested .. => []

/-- What the direct message listener and the group message listener do about the same message. -/
def onLiveMessage (env : Env) : OfflineMessage → RouterAction
  | .direct m => .direct env m
  | .group m => .group env m

namespace App
variable {M : OpenMls} {O : Olm}

def act (W : Wire) (a : App M O) : RouterAction → App M O
  | .direct env m => (Inbound.direct m).receive W env a
  | .group env m => (Inbound.group m).receive W env a
  | .broadcastOfflineCount _ => a
  | .requestOffline => a

def run (W : Wire) (a : App M O) (actions : List RouterAction) : App M O := actions.foldl (act W) a

/-- What survives the process: the store, the pickles, and the MLS state as it is persisted. -/
structure Durable (a b : App M O) : Prop where
  storage : a.node.storage = b.node.storage
  sessionPickles : a.dms.sessionPickles = b.dms.sessionPickles
  olmPickle : a.dms.olmPickle = b.dms.olmPickle
  mlsState : a.node.mls.exportState = b.node.mls.exportState

/-- What the frontend has been told. -/
def shown (a : App M O) : List WsMessage := a.node.effects.filterMap fun
  | .ws m => some m
  | _ => none

end App

/-- The messages of a batch, each with what its delivery reads from outside. -/
def carried (batch : List (Env × OfflineMessageEnvelope)) : List (Env × OfflineMessage) :=
  batch.filterMap fun x => x.2.message.map fun m => (x.1, m)

/-- A batch does what the live listeners do with its messages in turn; each message is taken up, and what is left at
the relay is asked for. -/
structure OfflineRefines {M : OpenMls} {O : Olm} (W : Wire) (a : App M O) (peer : PeerId)
    (batch : List (Env × OfflineMessageEnvelope)) (hasMore : Bool) : Prop where
  durable : App.Durable (a.run W (onOfflineMessage (.messagesReceived peer (batch.map (·.2)) hasMore)))
    (a.run W ((carried batch).map fun x => onLiveMessage x.1 x.2))
  shown : (a.run W (onOfflineMessage (.messagesReceived peer (batch.map (·.2)) hasMore))).shown =
    (a.run W ((carried batch).map fun x => onLiveMessage x.1 x.2)).shown
  taken : ∀ x ∈ carried batch,
    onLiveMessage x.1 x.2 ∈ onOfflineMessage (.messagesReceived peer (batch.map (·.2)) hasMore)
  more : hasMore = true → .requestOffline ∈ onOfflineMessage (.messagesReceived peer (batch.map (·.2)) hasMore)

/-- There is nothing in the batch, and nothing left at the relay. -/
def NothingWaits (batch : List (Env × OfflineMessageEnvelope)) (hasMore : Bool) : Prop :=
  (∀ x ∈ batch, x.2.message = none) ∧ hasMore = false

end Variance
