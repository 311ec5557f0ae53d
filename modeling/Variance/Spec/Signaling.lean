import Variance.Spec.NameWorld

/-! Call signaling: the call manager and the signed messages of `variance-media`, the handler that joins them
(`p2p/src/handlers/signaling.rs`), and the swarm loop's part (`handle_signaling_protocol_event`). The `webrtc` crate is
a parameter. An error's text is only logged, so errors carry none. -/

namespace Variance

inductive SignalingContent
  | offer (sdp : String) (callType : ℤ)
  | answer (sdp : String)
  | iceCandidate (candidate sdpMid : String) (sdpMLineIndex : Option ℕ)
  | control (type : ℤ) (reason : Option String)
deriving DecidableEq

structure SignalingMessage where
  callId : String
  senderDid : Did
  recipientDid : Did
  message : Option SignalingContent
  timestamp : ℤ
  signature : Bytes
  nonce : Bytes
deriving DecidableEq

/-- `CallControlType` on the wire. -/
def controlAccept : ℤ := 2
def controlReject : ℤ := 3
def controlHangup : ℤ := 4

/-- What is signed of the content, with its discriminator. -/
def SignalingContent.payload : SignalingContent → Bytes
  | .offer sdp callType => 1 :: utf8Bytes sdp ++ leBytes 4 (callType % 2 ^ 32).toNat
  | .answer sdp => 2 :: utf8Bytes sdp
  | .iceCandidate candidate sdpMid _ => 3 :: utf8Bytes candidate ++ utf8Bytes sdpMid
  | .control type _ => 4 :: leBytes 4 (type % 2 ^ 32).toNat

/-- The bytes that are signed. -/
def SignalingMessage.payload (m : SignalingMessage) : Bytes :=
  utf8Bytes m.callId ++ utf8Bytes m.senderDid ++ utf8Bytes m.recipientDid ++
    leBytes 8 (m.timestamp % 2 ^ 64).toNat ++ m.nonce ++
    match m.message with
    | none => []
    | some content => content.payload

/-! `variance-media` -/

/-- The `webrtc` calls: connections, and what a description or a candidate makes of one. -/
structure WebRtc where
  Pc : Type
  Sdp : Type
  newPeerConnection : List String → Option Pc
  offer : String → Option Sdp
  answer : String → Option Sdp
  text : Sdp → String
  setRemoteDescription : Sdp → Pc → Bool × Pc
  createAnswer : Pc → Option Sdp × Pc
  setLocalDescription : Sdp → Pc → Bool × Pc
  addIceCandidate : String → Option String → Option ℕ → Pc → Bool × Pc

inductive MediaError
  | callNotFound
  | invalidState
  | invalidSignature
  | signaling
  | webRtc
deriving DecidableEq

/-- `CallStatus` on the wire. -/
abbrev CallStatus := ℤ

structure CallManager.Call (R : WebRtc) where
  id : String
  participants : List Did
  callType : ℤ
  status : CallStatus
  startedAt : ℤ
  endedAt : Option ℤ
  peerConnection : Option R.Pc

structure CallManager (R : WebRtc) where
  localDid : Did
  calls : SledTree (CallManager.Call R)
  iceServers : List String

namespace CallManager
variable {R : WebRtc}

def storeConnection (c : CallManager R) (callId : String) (call : Call R) (pc : R.Pc) : CallManager R :=
  { c with calls := c.calls.insert callId { call with peerConnection := some pc } }

/-- A new connection takes the place of any the call had. -/
def handleOffer (c : CallManager R) (callId offerSdp : String) : Except MediaError String × CallManager R :=
  match c.calls[callId]? with
  | none => (.error .callNotFound, c)
  | some call =>
    match R.newPeerConnection c.iceServers, R.offer offerSdp with
    | some pc, some offer =>
      match R.setRemoteDescription offer pc with
      | (false, _) => (.error .webRtc, c)
      | (true, pc) =>
        match R.createAnswer pc with
        | (none, _) => (.error .webRtc, c)
        | (some answer, pc) =>
          match R.setLocalDescription answer pc with
          | (false, _) => (.error .webRtc, c)
          | (true, pc) => (.ok (R.text answer), c.storeConnection callId call pc)
    | _, _ => (.error .webRtc, c)

def handleAnswer (c : CallManager R) (callId answerSdp : String) : Except MediaError Unit × CallManager R :=
  match c.calls[callId]? with
  | none => (.error .callNotFound, c)
  | some call =>
    match call.peerConnection, R.answer answerSdp with
    | none, _ => (.error .invalidState, c)
    | some _, none => (.error .webRtc, c)
    | some pc, some answer =>
      let r := R.setRemoteDescription answer pc
      (if r.1 then .ok () else .error .webRtc, c.storeConnection callId call r.2)

def handleIceCandidate (c : CallManager R) (callId candidate : String) (sdpMid : Option String)
    (sdpMlineIndex : Option ℕ) : Except MediaError Unit × CallManager R :=
  match c.calls[callId]? with
  | none => (.error .callNotFound, c)
  | some call =>
    match call.peerConnection with
    | none => (.error .invalidState, c)
    | some pc =>
      let r := R.addIceCandidate candidate sdpMid sdpMlineIndex pc
      (if r.1 then .ok () else .error .webRtc, c.storeConnection callId call r.2)

end CallManager

/-- The `SignalingHandler` of `variance-media`; `signingKey` is the function of our key. -/
structure MediaHandler where
  localDid : Did
  signingKey : Bytes → Bytes
  seenNonces : SledTree (List Bytes)

namespace MediaHandler

def createSignalingMessage (h : MediaHandler) (now : ℤ) (nonce : Bytes) (callId : String) (recipientDid : Did)
    (content : SignalingContent) : SignalingMessage :=
  let m : SignalingMessage :=
    { callId, senderDid := h.localDid, recipientDid, message := some content, timestamp := now, signature := [], nonce }
  { m with signature := h.signingKey m.payload }

/-- The signature first, so that a nonce is only recorded for the call when it holds. -/
def verifyMessage (h : MediaHandler) (E : Ed25519) (m : SignalingMessage) (senderPublicKey : Bytes) :
    Except MediaError Unit × MediaHandler :=
  if m.nonce.length ≠ 16 then (.error .signaling, h)
  else if m.signature.length ≠ 64 then (.error .invalidSignature, h)
  else if E.verify senderPublicKey m.payload m.signature = false then (.error .invalidSignature, h)
  else
    let seen := (h.seenNonces[m.callId]?).getD []
    if m.nonce ∈ seen then (.error .signaling, h)
    else (.ok (), { h with seenNonces := h.seenNonces.insert m.callId (m.nonce :: seen) })

end MediaHandler

/-! `p2p/src/handlers/signaling.rs` -/

inductive P2pError
  | protocol
  | invalidMessage
deriving DecidableEq

structure SignalingHandler (R : WebRtc) where
  mediaHandler : Option MediaHandler
  callManager : Option (CallManager R)
  activeCalls : SledTree Did
  /-- What `get_cached_did` finds, by DID or username. -/
  cache : SledTree CachedDid

/-- What a step reads from outside: the clock and a fresh nonce. -/
structure SignalingEnv where
  now : ℤ
  nonce : Bytes

namespace SignalingHandler
variable {R : WebRtc}

def verifySignature (h : SignalingHandler R) (E : Ed25519) (m : SignalingMessage) :
    Except P2pError Unit × SignalingHandler R :=
  match (h.cache[m.senderDid]?).bind (·.getVerifyingKey E), h.mediaHandler with
  | some key, some media =>
    let r := media.verifyMessage E m key
    (r.1.mapError fun _ => .protocol, { h with mediaHandler := some r.2 })
  | _, _ => (.error .protocol, h)

/-- The call is tracked before the call manager has a say. -/
def handleOffer (h : SignalingHandler R) (env : SignalingEnv) (peerDid : Did) (m : SignalingMessage)
    (offerSdp : String) : Except P2pError SignalingMessage × SignalingHandler R :=
  let h := { h with activeCalls := h.activeCalls.insert m.callId peerDid }
  match h.callManager with
  | none => (.error .invalidMessage, h)
  | some manager =>
    match manager.handleOffer m.callId offerSdp with
    | (.error _, manager) => (.error .invalidMessage, { h with callManager := some manager })
    | (.ok answerSdp, manager) =>
      let h := { h with callManager := some manager }
      match h.mediaHandler with
      | none => (.error .invalidMessage, h)
      | some media =>
        (.ok (media.createSignalingMessage env.now env.nonce m.callId peerDid (.answer answerSdp)), h)

def handleAnswer (h : SignalingHandler R) (env : SignalingEnv) (peerDid : Did) (m : SignalingMessage)
    (answerSdp : String) : Except P2pError SignalingMessage × SignalingHandler R :=
  match h.callManager with
  | none => (.error .invalidMessage, h)
  | some manager =>
    match manager.handleAnswer m.callId answerSdp with
    | (.error _, manager) => (.error .invalidMessage, { h with callManager := some manager })
    | (.ok (), manager) =>
      let h := { h with callManager := some manager }
      match h.mediaHandler with
      | none => (.error .invalidMessage, h)
      | some media =>
        (.ok (media.createSignalingMessage env.now env.nonce m.callId peerDid (.control controlAccept none)), h)

def handleIceCandidate (h : SignalingHandler R) (m : SignalingMessage) (candidate sdpMid : String)
    (sdpMLineIndex : Option ℕ) : Except P2pError SignalingMessage × SignalingHandler R :=
  match h.callManager with
  | none => (.error .invalidMessage, h)
  | some manager =>
    match manager.handleIceCandidate m.callId candidate (some sdpMid) (sdpMLineIndex.map (· % 2 ^ 16)) with
    | (.error _, manager) => (.error .invalidMessage, { h with callManager := some manager })
    | (.ok (), manager) => (.ok m, { h with callManager := some manager })

/-- A hangup or reject ends the call it names. -/
def handleControl (h : SignalingHandler R) (m : SignalingMessage) (type : ℤ) :
    Except P2pError SignalingMessage × SignalingHandler R :=
  if type = controlHangup ∨ type = controlReject then
    (.ok m, { h with activeCalls := h.activeCalls.erase m.callId })
  else (.ok m, h)

def handleMessage (h : SignalingHandler R) (E : Ed25519) (env : SignalingEnv) (peerDid : Did) (m : SignalingMessage) :
    Except P2pError SignalingMessage × SignalingHandler R :=
  match h.verifySignature E m with
  | (.error e, h) => (.error e, h)
  | (.ok (), h) =>
    match m.message with
    | some (.offer sdp _) => h.handleOffer env peerDid m sdp
    | some (.answer sdp) => h.handleAnswer env peerDid m sdp
    | some (.iceCandidate candidate sdpMid sdpMLineIndex) => h.handleIceCandidate m candidate sdpMid sdpMLineIndex
    | some (.control type _) => h.handleControl m type
    | none => (.error .invalidMessage, h)

end SignalingHandler

/-! The swarm loop -/

inductive SignalingEvent
  | offerReceived (peer : PeerId) (callId : String) (message : SignalingMessage)
  | answerReceived (peer : PeerId) (callId : String) (message : SignalingMessage)
  | iceCandidateReceived (peer : PeerId) (callId : String) (message : SignalingMessage)
  | controlReceived (peer : PeerId) (callId : String) (message : SignalingMessage)

/-- The handler, and the events given to the frontend. -/
structure SignalingNode (R : WebRtc) where
  handler : SignalingHandler R
  events : List SignalingEvent

/-- How a message comes in: as a request, with the rate limiter's decision about the peer, or as the response to one of
ours. -/
inductive SignalingKind
  | request (allowed : Bool)
  | response
deriving DecidableEq

namespace SignalingNode
variable {R : WebRtc}

def emitSignalingEvent (n : SignalingNode R) (peer : PeerId) (m : SignalingMessage) : SignalingNode R :=
  match m.message with
  | some (.offer ..) => { n with events := n.events ++ [.offerReceived peer m.callId m] }
  | some (.answer ..) => { n with events := n.events ++ [.answerReceived peer m.callId m] }
  | some (.iceCandidate ..) => { n with events := n.events ++ [.iceCandidateReceived peer m.callId m] }
  | some (.control ..) => { n with events := n.events ++ [.controlReceived peer m.callId m] }
  | none => n

/-- A signaling message comes in from a peer; `peerDid` is a DID under which the peer is known, or else its id. -/
def handleSignaling (n : SignalingNode R) (E : Ed25519) (env : SignalingEnv) (kind : SignalingKind) (peer : PeerId)
    (peerDid : Did) (m : SignalingMessage) : Option SignalingMessage × SignalingNode R :=
  match kind with
  | .request false => (none, n)
  | .request true =>
    let n := n.emitSignalingEvent peer m
    let r := n.handler.handleMessage E env peerDid m
    (r.1.toOption, { n with handler := r.2 })
  | .response => (none, n.emitSignalingEvent peer m)

/-! What is to be refused -/

/-- Signed by the sender with a nonce that the call has not seen. -/
def Authentic (n : SignalingNode R) (E : Ed25519) (m : SignalingMessage) : Prop :=
  ∃ sender key media, n.handler.cache[m.senderDid]? = some sender ∧ sender.getVerifyingKey E = some key ∧
    n.handler.mediaHandler = some media ∧ m.nonce.length = 16 ∧ m.signature.length = 64 ∧
    E.verify key m.payload m.signature = true ∧ m.nonce ∉ (media.seenNonces[m.callId]?).getD []

/-- Every record of the call has the peer in it. -/
def Participates (n : SignalingNode R) (peerDid : Did) (callId : String) : Prop :=
  (∀ d, n.handler.activeCalls[callId]? = some d → d = peerDid) ∧
    ∀ manager call, n.handler.callManager = some manager → manager.calls[callId]? = some call →
      peerDid ∈ call.participants

/-- Rejected (not authentic, not for us, stale by any standard), not from a participant, or not from its sender. -/
def Refusable (n : SignalingNode R) (E : Ed25519) (stale : ℤ → Prop) (peerDid : Did) (m : SignalingMessage) : Prop :=
  ¬ n.Authentic E m ∨ (∃ media, n.handler.mediaHandler = some media ∧ m.recipientDid ≠ media.localDid) ∨
    stale m.timestamp ∨ ¬ n.Participates peerDid m.callId ∨ peerDid ≠ m.senderDid

/-- What is to be refused leaves the calls alone, and no event is emitted. -/
def SignalingGuarded (n : SignalingNode R) (E : Ed25519) (stale : ℤ → Prop) (env : SignalingEnv)
    (kind : SignalingKind) (peer : PeerId) (peerDid : Did) (m : SignalingMessage) : Prop :=
  n.Refusable E stale peerDid m →
    (n.handleSignaling E env kind peer peerDid m).2.handler.activeCalls = n.handler.activeCalls ∧
      (n.handleSignaling E env kind peer peerDid m).2.handler.callManager = n.handler.callManager ∧
      (n.handleSignaling E env kind peer peerDid m).2.events = n.events

end SignalingNode
end Variance
