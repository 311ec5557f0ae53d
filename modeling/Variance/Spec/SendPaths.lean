import Variance.Spec.Clients
import Variance.Spec.History

/-! A message that the user sends, over the HTTP API (`api/conversations.rs`, `api/groups.rs`) and over the WebSocket
(`websocket.rs`). -/

namespace Variance

/-- What a request does beside the store: what it puts on the network, and the request to persist the MLS state. -/
inductive Outward
  | resolve (did : Did)
  | direct (peerDid : Did) (message : DirectMessage)
  | publish (topic : String) (message : GroupMessage)
  | persistMls
deriving DecidableEq

/-- The P2P node as a request finds it: the did it has been given, what the connected peers say when asked for a did's
keys (`none` when no peer is connected), and whether the recipient is known and connected. -/
structure P2pState where
  localDid : Option Did
  lookup : Option (Except String IdentityFound)
  reachable : Bool

namespace P2pState

/-- `NodeCommand::SendDirectMessage`; a message to the node's own did never leaves it. -/
def sendDirectMessage (p : P2pState) (peerDid : Did) (message : DirectMessage) : Bool × List Outward :=
  if some peerDid = p.localDid then (true, [])
  else if p.reachable then (true, [.direct peerDid message])
  else (false, [])

/-- `resolve_identity_by_did`, with the text that `ensure_olm_session` makes of an error. -/
def resolveIdentityByDid (p : P2pState) (did : Did) : Except String IdentityFound × List Outward :=
  match p.lookup with
  | some found => (found, [.resolve did])
  | none =>
    (.error ("Cannot reach peer via P2P. Make sure both nodes are running and connected. (Protocol error: " ++
      "Cannot resolve " ++ did ++ ": no peers connected)"), [])

end P2pState

/-- The check of both HTTP handlers. -/
def textRefused (text : String) : Bool := text.toList.all Char.isWhitespace || 4096 < text.utf8ByteSize

/-- The content both pairs of handlers make. -/
def textContent (text : String) (replyTo : Option String) : MessageContent :=
  { text, attachments := [], mentions := [], replyTo, metadata := ∅ }

namespace DirectMessageHandler
variable {O : Olm}

/-- `send_dm_to_peer`: what the node does not take is queued; a failure to queue it is only logged. -/
def sendDmToPeer (h : DirectMessageHandler O) (env : Env) (p : P2pState) (recipientDid : Did)
    (message : DirectMessage) : DirectMessageHandler O × List Outward :=
  match p.sendDirectMessage recipientDid message with
  | (true, sent) => (h, sent)
  | (false, sent) =>
    ({ h with storage := (h.storage.storePendingMessage env.faults recipientDid message).2 }, sent)

/-- There is a session, or none is needed. -/
def Known (h : DirectMessageHandler O) (recipientDid : Did) : Prop :=
  recipientDid = h.localDid ∨ (h.sessions[recipientDid]?).isSome

instance (h : DirectMessageHandler O) (d : Did) : Decidable (h.Known d) := inferInstanceAs (Decidable (_ ∨ _))

/-- The write of a message to the recipient, or of its plaintext, fails. -/
def Unwritable (h : DirectMessageHandler O) (env : Env) (recipientDid : Did) : Prop :=
  env.faults "direct_messages" (LocalMessageStorage.directKey h.localDid recipientDid env.now env.ulid) ∨
    env.faults "plaintext_cache" env.ulid

instance (h : DirectMessageHandler O) (env : Env) (d : Did) : Decidable (h.Unwritable env d) :=
  inferInstanceAs (Decidable (_ ∨ _))

/-- What `ensure_olm_session` asks the network: nothing when there is a session, or for oneself. -/
def sessionLookup (h : DirectMessageHandler O) (p : P2pState) (recipientDid : Did) : List Outward :=
  if h.Known recipientDid then []
  else (p.resolveIdentityByDid recipientDid).2

end DirectMessageHandler

namespace App
variable {M : OpenMls} {O : Olm}

def sendDirectMessage (W : Wire) (a : App M O) (env : Env) (p : P2pState) (recipientDid : Did) (text : String)
    (replyTo : Option String) : Except AppError Unit × App M O × List Outward :=
  if textRefused text then (.error (.badRequest "Message must be 1–4096 characters"), a, [])
  else
    let asked := a.handler.sessionLookup p recipientDid
    match a.handler.ensureOlmSession env recipientDid (p.resolveIdentityByDid recipientDid).1 with
    | (.error e, h) => (.error e, a.withHandler h, asked)
    | (.ok (), h) =>
      match h.sendMessage W env recipientDid (textContent text replyTo) with
      | (.error e, h) => (.error (.wrap "Failed to send message" e), a.withHandler h, asked)
      | (.ok message, h) =>
        let (h, sent) := h.sendDmToPeer env p recipientDid message
        (.ok (), a.withHandler h, asked ++ sent)

/-- The arm `SendDirectMessage` of `handle_client_message`; that the node does not take a message is only logged. -/
def wsSendDirectMessage (W : Wire) (a : App M O) (env : Env) (p : P2pState) (recipientDid : Did) (text : String)
    (replyTo : Option String) : Except MsgError Unit × App M O × List Outward :=
  match a.handler.sendMessage W env recipientDid (textContent text replyTo) with
  | (.error e, h) => (.error e, a.withHandler h, [])
  | (.ok message, h) => (.ok (), a.withHandler h, (p.sendDirectMessage recipientDid message).2)

end App

/-- As `Ulid::new` promises: no message has had the id. -/
structure LocalMessageStorage.Unused (s : LocalMessageStorage) (id : String) : Prop where
  direct : ∀ did1 did2 timestamp, s.directMessages[directKey did1 did2 timestamp id]? = none
  pending : ∀ peerDid, s.pendingMessages[pendingKey peerDid id]? = none

/-- A message to a peer or to a group. -/
inductive SendRequest
  | direct (recipientDid : Did) (text : String) (replyTo : Option String)
  | group (groupId text : String) (replyTo : Option String)

/-- What a send comes to: whether it is refused, what is on disk after it, and what it did outside the process. -/
structure SendOutcome (O : Olm) where
  refused : Bool
  storage : LocalMessageStorage
  sessionPickles : SledTree O.Session
  olmPickle : SledTree O.Account
  outward : List Outward

def Effect.outward : Effect → Option Outward
  | .publish topic m => some (.publish topic m)
  | .schedulePersist => some .persistMls
  | _ => none

namespace SendRequest
variable {M : OpenMls} {O : Olm}

/-- `before` is the node as the request found it. -/
def outcome (refused : Bool) (before after : App M O) (outward : List Outward) : SendOutcome O :=
  { refused
    storage := after.node.storage
    sessionPickles := after.dms.sessionPickles
    olmPickle := after.dms.olmPickle
    outward := outward ++ (after.node.effects.drop before.node.effects.length).filterMap Effect.outward }

def overHttp (W : Wire) (a : App M O) (env : Env) (p : P2pState) : SendRequest → SendOutcome O
  | .direct d text replyTo =>
    let r := a.sendDirectMessage W env p d text replyTo
    outcome (Except.toOption r.1).isNone a r.2.1 r.2.2
  | .group g text replyTo =>
    let r := a.node.mlsSendGroupMessage W env g text replyTo ∅
    outcome (Except.toOption r.1).isNone a { a with node := r.2 } []

/-- The group's arm answers nobody; when it gives up it has not told the client of a message. -/
def overWebSocket (W : Wire) (a : App M O) (env : Env) (p : P2pState) : SendRequest → SendOutcome O
  | .direct d text replyTo =>
    let r := a.wsSendDirectMessage W env p d text replyTo
    outcome (Except.toOption r.1).isNone a r.2.1 r.2.2
  | .group g text replyTo =>
    let n := a.node.wsSendGroupMessage W env g text replyTo
    outcome (n.effects = a.node.effects) a { a with node := n } []

/-- A text that is refused over HTTP is refused over the WebSocket only when there is no session to send it in, or the
message cannot be written. Any other goes out the same way when a session is there already and the node takes the
message, or it cannot be written; without a session, when nobody can be asked for keys. A group message does when
neither handler can encrypt what it is to send. -/
def SameEitherWay (W : Wire) (a : App M O) (env : Env) (p : P2pState) : SendRequest → Prop
  | .direct d text _ =>
    if textRefused text then a.handler.Known d →
      env.faults "direct_messages" (LocalMessageStorage.directKey a.handler.localDid d env.now env.ulid) = true
    else if a.handler.Known d then
      a.handler.Unwritable env d ∨ (some d = p.localDid ∨ p.reachable) ∨
        env.faults "pending_messages" (LocalMessageStorage.pendingKey d env.ulid) = true
    else p.lookup = none
  | .group g text replyTo =>
    ¬ a.node.Encrypts g (W.encodeMessageContent (textContent text replyTo)) env.rng ∧
      (textRefused text ∨ a.node.Frozen g ∨
        ¬ a.node.Encrypts g (W.encodeGroupPayload (.message (textContent text replyTo))) env.rng)

end SendRequest

end Variance
