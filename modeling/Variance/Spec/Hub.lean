import Variance.Lib.InsertionMap
import Variance.Lib.Replay
import Variance.Spec.Presence

/-! Who is shown as online: the clients of the app's WebSocket (`variance-app/src/websocket.rs`), the identity listener
of the event router that tells them of the node's connections, and the page behind each, which also polls `/presence`.
-/

namespace Variance

inductive MessageCategory
  | signaling
  | messages
  | presence
  | system
deriving DecidableEq

/-- The variants of `WsMessage` that no page reads a presence or a name from. -/
inductive WsVariant
  | callIncoming | callAnswer | iceCandidate | callControl | callEnded | callStateChanged
  | directMessageReceived | directMessageSent | directMessageNack | directMessageStatusChanged
  | groupMessageReceived | mlsGroupJoined | groupInvitationReceived | groupInvitationAccepted
  | groupInvitationDeclined | groupInvitationExpired | roleChanged | mlsGroupRemoved | groupMemberRemoved
  | groupDesyncDetected | groupReinitialized | groupFrozen | offlineMessagesReceived
  | typingStarted | typingStopped | receiptRead | receiptDelivered | groupReceiptDelivered | groupReceiptRead
  | connected | ping | pong
deriving DecidableEq

def WsVariant.category : WsVariant → MessageCategory
  | .callIncoming | .callAnswer | .iceCandidate | .callControl | .callEnded | .callStateChanged => .signaling
  | .connected | .ping | .pong => .system
  | _ => .messages

inductive WsFrame
  | presenceUpdated (did : Did) (online : Bool) (displayName : Option String)
  | peerRenamed (did : Did) (displayName : String)
  | other (variant : WsVariant) (data : String)

def WsFrame.category : WsFrame → MessageCategory
  | .presenceUpdated .. | .peerRenamed .. => .presence
  | .other variant _ => variant.category

structure ClientSubscription where
  signaling : Bool := true
  messages : Bool := true
  presence : Bool := true

def ClientSubscription.accepts (s : ClientSubscription) : MessageCategory → Bool
  | .signaling => s.signaling
  | .messages => s.messages
  | .presence => s.presence
  | .system => true

/-- `tx` holds what has been sent to the client's task and not been forwarded yet. -/
structure ConnectedClient where
  did : Option Did
  tx : List WsFrame
  subscriptions : ClientSubscription

def ConnectedClient.send (c : ConnectedClient) (m : WsFrame) : ConnectedClient := { c with tx := c.tx ++ [m] }

inductive ClientMessage
  | authenticate (did : Did)
  | subscribe (signaling messages presence : Option Bool)
  | ping
  | sendDirectMessage
  /-- Answered when the message could be encrypted. -/
  | sendGroupMessage (answer : Option String)

structure WebSocketManager where
  clients : InsertionMap String ConnectedClient

namespace WebSocketManager

def new : WebSocketManager := ⟨∅⟩

def register (m : WebSocketManager) (clientId : String) (client : ConnectedClient) : WebSocketManager :=
  ⟨m.clients.set clientId client⟩

def unregister (m : WebSocketManager) (clientId : String) : WebSocketManager := ⟨m.clients.delete clientId⟩

def broadcast (m : WebSocketManager) (message : WsFrame) : WebSocketManager :=
  ⟨m.clients.filterMap fun _ client =>
    some (if client.subscriptions.accepts message.category then client.send message else client)⟩

def modify (m : WebSocketManager) (clientId : String) (f : ConnectedClient → ConnectedClient) : WebSocketManager :=
  match m.clients.get clientId with
  | none => m
  | some client => ⟨m.clients.set clientId (f client)⟩

def sendTo (m : WebSocketManager) (clientId : String) (message : WsFrame) : WebSocketManager :=
  m.modify clientId fun client => client.send message

def handleClientMessage (m : WebSocketManager) (clientId : String) : ClientMessage → WebSocketManager
  | .authenticate did =>
    m.modify clientId fun client => { client with did := some did }.send (.presenceUpdated did true none)
  | .subscribe signaling messages presence =>
    m.modify clientId fun client =>
      { client with
        subscriptions :=
          { signaling := signaling.getD client.subscriptions.signaling
            messages := messages.getD client.subscriptions.messages
            presence := presence.getD client.subscriptions.presence } }
  | .ping => m.sendTo clientId (.other .pong "")
  | .sendDirectMessage => m
  | .sendGroupMessage answer => match answer with
    | some data => m.sendTo clientId (.other .groupMessageReceived data)
    | none => m

end WebSocketManager

/-- What a page shows of its peers: the two maps of the store that the frames write. -/
structure PresencePage where
  presenceMap : InsertionMap Did Bool
  peerNames : InsertionMap Did String

namespace PresencePage

def new : PresencePage := ⟨∅, ∅⟩

def setPresence (p : PresencePage) (did : Did) (online : Bool) : PresencePage :=
  { p with presenceMap := p.presenceMap.set did online }

def setPeerName (p : PresencePage) (did : Did) (name : String) : PresencePage :=
  { p with peerNames := p.peerNames.set did name }

def syncPresence (p : PresencePage) (onlineDids : List Did) : PresencePage :=
  { p with
    presenceMap := onlineDids.foldl (fun m did => m.set did true)
      (p.presenceMap.filterMap fun did _ => some (decide (did ∈ onlineDids))) }

/-- The cases of `useWebSocket` that write the maps; an empty name is none. -/
def handle (p : PresencePage) : WsFrame → PresencePage
  | .presenceUpdated did online displayName =>
    let p := p.setPresence did online
    match displayName with
    | some name => if name = "" then p else p.setPeerName did name
    | none => p
  | .peerRenamed did displayName => p.setPeerName did displayName
  | .other .. => p

def isOnline (p : PresencePage) (did : Did) : Bool := (p.presenceMap.get did).getD false

end PresencePage

/-- An answer of `/presence` that is under way, and how many events the node had sent when it was given. -/
structure PresencePoll where
  online : List Did
  at_ : ℕ

/-- A page and its connection: `wire` holds what was sent to it and has not arrived. `serving`: `handle_socket` has
written who is connected and forwards what is in `tx`. -/
structure Socket where
  page : PresencePage
  wire : List WsFrame
  serving : Bool
  polls : List PresencePoll
  /-- The page had shown nobody when it connected. -/
  blank : Bool
  /-- A poll has been answered. -/
  polled : Bool

/-- The node, how many of its events the identity listener has taken, and the clients. -/
structure PresenceHub where
  node : PresenceNode
  routed : ℕ
  manager : WebSocketManager
  sockets : InsertionMap String Socket
  localDid : Did

inductive HubEvent
  | node (e : PresenceEvent)
  /-- The identity listener takes an event, or has missed some. -/
  | route (displayName : Option String)
  | lagged (missed : ℕ)
  /-- What the other listeners tell all clients. -/
  | renamed (did : Did) (displayName : String)
  | broadcast (variant : WsVariant) (data : String)
  /-- A client connects, under an id of its own; the node answers, with the names that are known, or not at all. -/
  | connect (clientId : String) (page : PresencePage)
  | greet (clientId : String) (answered : Bool) (displayName : Did → Option String)
  | forward (clientId : String)
  | receive (clientId : String)
  | clientMessage (clientId : String) (message : ClientMessage)
  | close (clientId : String)
  | poll (clientId : String)
  | polled (clientId : String) (i : ℕ)

def MapEvent.frame (displayName : Option String) : MapEvent → WsFrame
  | .didCached did => .presenceUpdated did true displayName
  | .peerOffline did => .presenceUpdated did false displayName

namespace PresenceHub

/-- `GetConnectedDids`. -/
def connectedDids (w : PresenceHub) : List Did := w.node.map.didToPeer.keys

def onSocket (w : PresenceHub) (clientId : String) (f : Socket → Socket) : PresenceHub :=
  match w.sockets.get clientId with
  | none => w
  | some s => { w with sockets := w.sockets.set clientId (f s) }

def connect (w : PresenceHub) (clientId : String) (page : PresencePage) : PresenceHub :=
  match w.sockets.get clientId with
  | some _ => w
  | none =>
    { w with
      manager := w.manager.register clientId ⟨none, [], {}⟩
      sockets := w.sockets.set clientId
        { page, wire := [.other .connected clientId], serving := false, polls := [], polled := false
          blank := decide (page.presenceMap.entries = []) } }

/-- Those who are connected are written straight to the socket, before anything that has been queued. -/
def greet (w : PresenceHub) (clientId : String) (answered : Bool) (displayName : Did → Option String) : PresenceHub :=
  w.onSocket clientId fun s =>
    if s.serving then s
    else
      { s with
        serving := true
        wire := if answered
          then s.wire ++ w.connectedDids.map fun did => .presenceUpdated did true (displayName did)
          else s.wire }

def forward (w : PresenceHub) (clientId : String) : PresenceHub :=
  match w.sockets.get clientId, w.manager.clients.get clientId with
  | some s, some client => match s.serving, client.tx with
    | true, m :: rest =>
      { w with
        manager := ⟨w.manager.clients.set clientId { client with tx := rest }⟩
        sockets := w.sockets.set clientId { s with wire := s.wire ++ [m] } }
    | _, _ => w
  | _, _ => w

def receive (w : PresenceHub) (clientId : String) : PresenceHub :=
  w.onSocket clientId fun s => match s.wire with
    | [] => s
    | m :: rest => { s with page := s.page.handle m, wire := rest }

/-- The poll's answer, to which the page adds its own user. -/
def polled (w : PresenceHub) (clientId : String) (i : ℕ) : PresenceHub :=
  w.onSocket clientId fun s => match s.polls[i]? with
    | none => s
    | some p =>
      { s with page := s.page.syncPresence (p.online ++ [w.localDid]), polls := s.polls.eraseIdx i, polled := true }

def step (E : Ed25519) (w : PresenceHub) : HubEvent → PresenceHub
  | .node e => { w with node := w.node.step E e }
  | .route displayName => match w.node.map.events[w.routed]? with
    | none => w
    | some e => { w with manager := w.manager.broadcast (e.frame displayName), routed := w.routed + 1 }
  | .lagged missed => { w with routed := min (w.routed + missed) w.node.map.events.length }
  | .renamed did displayName => { w with manager := w.manager.broadcast (.peerRenamed did displayName) }
  | .broadcast variant data => { w with manager := w.manager.broadcast (.other variant data) }
  | .connect clientId page => w.connect clientId page
  | .greet clientId answered displayName => w.greet clientId answered displayName
  | .forward clientId => w.forward clientId
  | .receive clientId => w.receive clientId
  | .clientMessage clientId message => { w with manager := w.manager.handleClientMessage clientId message }
  | .close clientId =>
    { w with manager := w.manager.unregister clientId, sockets := w.sockets.delete clientId }
  | .poll clientId =>
    w.onSocket clientId fun s => { s with polls := s.polls ++ [⟨w.connectedDids, w.node.map.events.length⟩] }
  | .polled clientId i => w.polled clientId i

end PresenceHub

/-! What is under way -/

def WsFrame.write : WsFrame → Option (Did × Bool)
  | .presenceUpdated did online _ => some (did, online)
  | _ => none

def MapEvent.write : MapEvent → Did × Bool
  | .didCached did => (did, true)
  | .peerOffline did => (did, false)

abbrev MapEvent.writes (es : List MapEvent) : List (Did × Bool) := es.map MapEvent.write

namespace PresenceHub

/-- What has been sent to a page and has not arrived. -/
def queued (s : Socket) (client : ConnectedClient) : List (Did × Bool) := (s.wire ++ client.tx).filterMap WsFrame.write

/-- With what the listener has not taken yet. -/
def underWay (w : PresenceHub) (s : Socket) (client : ConnectedClient) : List (Did × Bool) :=
  queued s client ++ MapEvent.writes (w.node.map.events.drop w.routed)

/-- A page shows, of all peers but its own user and those whose connection the node is about to announce, who is
connected: once everything has arrived that is under way, and so at once when nothing is. -/
structure Agrees (w : PresenceHub) (s : Socket) (client : ConnectedClient) : Prop where
  arrives : ∀ did, did ≠ w.localDid → .didCached did ∉ w.node.announcing →
    Replay.apply s.page.isOnline (w.underWay s client) did = decide (did ∈ w.connectedDids)
  shown : w.underWay s client = [] → ∀ did, did ≠ w.localDid → .didCached did ∉ w.node.announcing →
    s.page.isOnline did = decide (did ∈ w.connectedDids)

/-- The page knows all of its peers: it was empty when it was told who is connected, or it has polled. -/
def Told (s : Socket) : Prop := s.polled = true ∨ s.serving = true ∧ s.blank = true

/-- The rules: the node announces whom it has connected before the connection closes; the listener misses nothing; a
client that connects is told who is connected, and keeps to presences that are the node's; and what the node has sent
since a poll was answered arrives after the answer. -/
def Orderly (w : PresenceHub) : HubEvent → Prop
  | .node (.connectionClosed peer) => ∀ did, w.node.Maps did peer → .didCached did ∉ w.node.announcing
  | .lagged _ => False
  | .greet _ answered _ => answered = true
  | .clientMessage _ (.authenticate _) => False
  | .clientMessage _ (.subscribe _ _ presence) => presence ≠ some false
  | .polled clientId i => ∀ s client, w.sockets.get clientId = some s → w.manager.clients.get clientId = some client →
    ∀ p, s.polls[i]? = some p →
      MapEvent.writes ((w.node.map.events.take w.routed).drop p.at_) <:+ queued s client
  | _ => True

end PresenceHub

def hubSys (E : Ed25519) : StepSystem.Sys PresenceHub HubEvent where
  init w := w.node.Fresh ∧ w.routed = 0 ∧ w.manager = .new ∧ w.sockets = ∅
  step := PresenceHub.step E

end Variance
