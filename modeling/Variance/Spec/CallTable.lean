import Mathlib.Data.Finset.Basic
import Variance.Lib.Run
import Variance.Spec.Signaling

/-! The life of a call: the map of `CallManager` (`variance-media/src/call.rs`), one operation of the map at a time.
A call that is rejected, ended or failed is marked first and taken out later, after its peer connection is closed; a
registration looks first and inserts later; and the callbacks of the peer connections write whenever they come. -/

namespace Variance

namespace CallTable

/-- `CallStatus`. -/
inductive Status
  | unspecified
  | ringing
  | connecting
  | active
  | ended
  | failed
deriving DecidableEq

/-- Neither of the two is left again. -/
def Status.Over : Status → Prop
  | .ended | .failed => True
  | _ => False

instance : DecidablePred Status.Over
  | .ended | .failed => isTrue trivial
  | .unspecified | .ringing | .connecting | .active => isFalse id

/-- The moves of a call. -/
inductive Status.Next : Status → Status → Prop
  | accept : Next .ringing .connecting
  | activate : Next .connecting .active
  | finish {s s' : Status} : s = .ringing ∨ s = .connecting ∨ s = .active → s'.Over → Next s s'

structure Call where
  id : String
  participants : List Did
  callType : ℤ
  status : Status
  startedAt : ℤ
  endedAt : Option ℤ
  /-- The `Arc` that may hold a peer connection; each registration makes its own. -/
  peerConnection : ℕ
deriving DecidableEq

/-- The operations that take a call out. -/
inductive Closer
  | rejectCall
  | endCall
  | failCall
deriving DecidableEq

/-- One of them, between its first operation of the map and its last, with the call that it will return. -/
structure Closing where
  op : Closer
  call : Call
deriving DecidableEq

/-- `RTCPeerConnectionState`. -/
inductive PeerState
  | unspecified
  | new
  | connecting
  | connected
  | disconnected
  | failed
  | closed
deriving DecidableEq

end CallTable

open CallTable in
structure CallTable where
  localDid : Did
  calls : SledTree CallTable.Call
  /-- The next `Arc`, and those that hold a peer connection. -/
  nextConnection : ℕ
  connected : Finset ℕ
  /-- What runs: registrations after their look, set-ups of a connection, and operations that take a call out. -/
  registering : List (String × Did × ℤ)
  settingUp : List ℕ
  closing : List Closing

namespace CallTable

def insertCall (t : CallTable) (callId : String) (participants : List Did) (callType now : ℤ) : Call × CallTable :=
  let call : Call :=
    { id := callId, participants, callType, status := .ringing, startedAt := now, endedAt := none,
      peerConnection := t.nextConnection }
  (call, { t with calls := t.calls.insert callId call, nextConnection := t.nextConnection + 1 })

/-- `callId` is the fresh ULID. -/
def createCall (t : CallTable) (callId : String) (now : ℤ) (recipientDid : Did) (callType : ℤ) : Call × CallTable :=
  t.insertCall callId [t.localDid, recipientDid] callType now

/-- `register_incoming_call`, as far as its look. -/
def registerIncomingCall (t : CallTable) (callId : String) (callerDid : Did) (callType : ℤ) :
    Except MediaError Unit × CallTable :=
  if (t.calls[callId]?).isSome then (.error .invalidState, t)
  else (.ok (), { t with registering := t.registering ++ [(callId, callerDid, callType)] })

/-- The rest of it: what is under the id by now is not looked at. -/
def register (t : CallTable) (i : ℕ) (now : ℤ) : Option Call × CallTable :=
  match t.registering[i]? with
  | none => (none, t)
  | some (callId, callerDid, callType) =>
    let w := { t with registering := t.registering.eraseIdx i }.insertCall callId [callerDid, t.localDid] callType now
    (some w.1, w.2)

/-- A write through `get_mut`. -/
def write (t : CallTable) (callId : String) (call : Call) : CallTable := { t with calls := t.calls.insert callId call }

/-- From one status to the next, in one hold of the entry. -/
def advance (t : CallTable) (callId : String) (expected status : Status) : Except MediaError Call × CallTable :=
  match t.calls[callId]? with
  | none => (.error .callNotFound, t)
  | some call =>
    if call.status ≠ expected then (.error .invalidState, t)
    else
      let call := { call with status }
      (.ok call, t.write callId call)

def acceptCall (t : CallTable) (callId : String) : Except MediaError Call × CallTable :=
  t.advance callId .ringing .connecting

def activateCall (t : CallTable) (callId : String) : Except MediaError Call × CallTable :=
  t.advance callId .connecting .active

/-- The call is marked, and on its way out. -/
def close (t : CallTable) (op : Closer) (callId : String) (call : Call) (status : Status) (now : ℤ) : CallTable :=
  let call := { call with status, endedAt := some now }
  { t.write callId call with closing := t.closing ++ [⟨op, call⟩] }

def rejectCall (t : CallTable) (callId : String) (now : ℤ) : Except MediaError Unit × CallTable :=
  match t.calls[callId]? with
  | none => (.error .callNotFound, t)
  | some call =>
    if call.status ≠ .ringing then (.error .invalidState, t)
    else (.ok (), t.close .rejectCall callId call .ended now)

/-- Whatever the call's status is. -/
def endCall (t : CallTable) (callId : String) (now : ℤ) : Except MediaError Unit × CallTable :=
  match t.calls[callId]? with
  | none => (.error .callNotFound, t)
  | some call => (.ok (), t.close .endCall callId call .ended now)

def failCall (t : CallTable) (callId : String) (now : ℤ) : Except MediaError Unit × CallTable :=
  match t.calls[callId]? with
  | none => (.error .callNotFound, t)
  | some call => (.ok (), t.close .failCall callId call .failed now)

/-- There is a connection to close, it does not close, and the operation does not pass over it. -/
def Fails (t : CallTable) (k : Closing) (closes : Bool) : Prop :=
  k.op = .endCall ∧ k.call.peerConnection ∈ t.connected ∧ closes = false

instance (t : CallTable) (k : Closing) (closes : Bool) : Decidable (t.Fails k closes) :=
  inferInstanceAs (Decidable (_ ∧ _ ∧ _))

/-- The peer connection is closed, and the call taken out; `end_call` leaves it when the close fails. -/
def finish (t : CallTable) (i : ℕ) (closes : Bool) : Option (Except MediaError Call) × CallTable :=
  match t.closing[i]? with
  | none => (none, t)
  | some k =>
    let t' := { t with closing := t.closing.eraseIdx i }
    if t.Fails k closes then (some (.error .webRtc), t')
    else (some (.ok k.call), { t' with calls := t.calls.erase k.call.id })

/-- `create_offer` and `handle_offer`, as far as they find the call; the connection they make is stored when all of
its set-up went well. -/
def setUp (t : CallTable) (callId : String) : Except MediaError Unit × CallTable :=
  match t.calls[callId]? with
  | none => (.error .callNotFound, t)
  | some call => (.ok (), { t with settingUp := t.settingUp ++ [call.peerConnection] })

def finishSetUp (t : CallTable) (i : ℕ) (wentWell : Bool) : CallTable :=
  match t.settingUp[i]? with
  | none => t
  | some pc =>
    { t with
      settingUp := t.settingUp.eraseIdx i
      connected := if wentWell then insert pc t.connected else t.connected }

def newStatus : PeerState → Option Status
  | .connected => some .active
  | .failed => some .failed
  | .disconnected => some .failed
  | .closed => some .ended
  | _ => none

/-- The callback of a peer connection. -/
def onStateChange (t : CallTable) (callId : String) (state : PeerState) (now : ℤ) : CallTable :=
  match newStatus state with
  | none => t
  | some status =>
    match t.calls[callId]? with
    | none => t
    | some call =>
      t.write callId { call with status, endedAt := if status.Over then some now else call.endedAt }

def listActiveCalls (t : CallTable) : List Call := t.calls.toList.map (·.2)

/-- An operation of the map, by whoever makes it. -/
inductive Step
  | createCall (callId : String) (now : ℤ) (recipientDid : Did) (callType : ℤ)
  | registerIncomingCall (callId : String) (callerDid : Did) (callType : ℤ)
  | register (i : ℕ) (now : ℤ)
  | acceptCall (callId : String)
  | activateCall (callId : String)
  | rejectCall (callId : String) (now : ℤ)
  | endCall (callId : String) (now : ℤ)
  | failCall (callId : String) (now : ℤ)
  | finish (i : ℕ) (closes : Bool)
  | setUp (callId : String)
  | finishSetUp (i : ℕ) (wentWell : Bool)
  | onStateChange (callId : String) (state : PeerState) (now : ℤ)

def step (t : CallTable) : Step → CallTable
  | .createCall callId now recipientDid callType => (t.createCall callId now recipientDid callType).2
  | .registerIncomingCall callId callerDid callType => (t.registerIncomingCall callId callerDid callType).2
  | .register i now => (t.register i now).2
  | .acceptCall callId => (t.acceptCall callId).2
  | .activateCall callId => (t.activateCall callId).2
  | .rejectCall callId now => (t.rejectCall callId now).2
  | .endCall callId now => (t.endCall callId now).2
  | .failCall callId now => (t.failCall callId now).2
  | .finish i closes => (t.finish i closes).2
  | .setUp callId => (t.setUp callId).2
  | .finishSetUp i wentWell => t.finishSetUp i wentWell
  | .onStateChange callId state now => t.onStateChange callId state now

/-- From one state to the next: a status moves as it may, an ending has its time and keeps it, an id keeps its call,
and a call that is over is listed only while the operation that ended it runs. -/
structure Orderly (t t' : CallTable) : Prop where
  status : ∀ (id : String) (c c' : Call), t.calls[id]? = some c → t'.calls[id]? = some c' →
    c'.status = c.status ∨ c.status.Next c'.status
  timed : ∀ c ∈ t'.listActiveCalls, c.endedAt.isSome ↔ c.status.Over
  once : ∀ (id : String) (c c' : Call) (ended : ℤ), t.calls[id]? = some c → t'.calls[id]? = some c' →
    c.endedAt = some ended → c'.endedAt = some ended
  same : ∀ (id : String) (c c' : Call), t.calls[id]? = some c → t'.calls[id]? = some c' →
    c'.peerConnection = c.peerConnection
  listed : ∀ c ∈ t'.listActiveCalls, c.status.Over → ∃ k ∈ t'.closing, k.call = c

/-- An id is registered that is free; `end_call` and `fail_call` find a call that goes on, or one they leave as it is;
where a close fails, another operation still takes the call out; and a callback finds no call, or one that its status
is the next or the present one of, an ending at its own time. -/
def Careful (t : CallTable) : Step → Prop
  | .createCall callId _ _ _ => t.calls[callId]? = none
  | .register i _ => ∀ r, t.registering[i]? = some r → t.calls[r.1]? = none
  | .endCall callId now => ∀ c, t.calls[callId]? = some c → c.status.Over → c.status = .ended ∧ c.endedAt = some now
  | .failCall callId now => ∀ c, t.calls[callId]? = some c → c.status.Over → c.status = .failed ∧ c.endedAt = some now
  | .finish i closes => ∀ k, t.closing[i]? = some k → t.Fails k closes →
      ∀ c, t.calls[k.call.id]? = some c → c.status.Over → ∃ k' ∈ t.closing.eraseIdx i, k'.call = c
  | .onStateChange callId state now => ∀ c status, t.calls[callId]? = some c → newStatus state = some status →
      if status.Over then c.status = status ∧ c.endedAt = some now
      else c.status = .connecting ∨ c.status = .active
  | _ => True

end CallTable

/-- A manager with no calls. -/
def callSys : StepSystem.Sys CallTable CallTable.Step where
  init t := t.calls = ∅ ∧ t.registering = [] ∧ t.closing = []
  step := CallTable.step

/-! Nonces of signaling messages: `verify_message` records them, `purge_call_nonces` (`variance-media/src/signaling.rs`)
drops a call's. The app purges a call that it has rejected or ended (`api/calls.rs`), and the calls with a peer that goes
offline (`event_router/social.rs`). -/

namespace MediaHandler

def purgeCallNonces (h : MediaHandler) (callId : String) : MediaHandler :=
  { h with seenNonces := h.seenNonces.erase callId }

/-- The recorded nonces of a call. -/
def nonces (h : MediaHandler) (callId : String) : List Bytes := (h.seenNonces[callId]?).getD []

inductive NonceStep
  | verifyMessage (m : SignalingMessage) (senderPublicKey : Bytes)
  | purgeCallNonces (callId : String)
deriving DecidableEq

def NonceStep.callId : NonceStep → String
  | .verifyMessage m _ => m.callId
  | .purgeCallNonces callId => callId

def nonceStep (E : Ed25519) (h : MediaHandler) : NonceStep → MediaHandler
  | .verifyMessage m key => (h.verifyMessage E m key).2
  | .purgeCallNonces callId => h.purgeCallNonces callId

/-- The messages that are accepted, in order. -/
def accepted (E : Ed25519) : MediaHandler → List NonceStep → List SignalingMessage
  | _, [] => []
  | h, .verifyMessage m key :: es =>
    if (h.verifyMessage E m key).1 = .ok () then m :: accepted E (h.verifyMessage E m key).2 es
    else accepted E (h.verifyMessage E m key).2 es
  | h, .purgeCallNonces callId :: es => accepted E (h.purgeCallNonces callId) es

/-- The message is of the call and has the nonce. -/
def Bears (callId : String) (nonce : Bytes) (m : SignalingMessage) : Bool :=
  decide (m.callId = callId ∧ m.nonce = nonce)

end MediaHandler

open MediaHandler in
/-- The app's calls: the table, calls that were rejected or ended and are to be purged, and those listed when a peer
went offline, with the peer. -/
structure CallDesk where
  table : CallTable
  purging : List String
  sweeping : List (Did × String)

namespace CallDesk
open MediaHandler

inductive Step
  | verifyMessage (m : SignalingMessage) (senderPublicKey : Bytes)
  | table (s : CallTable.Step)
  | purge (i : ℕ)
  | peerOffline (did : Did)
  | sweep (i : ℕ)

/-- `get_remote_peer` -/
def getRemotePeer (d : CallDesk) (callId : String) : Option Did :=
  (d.table.calls[callId]?).bind fun call => call.participants.find? (· ≠ d.table.localDid)

/-- The handlers of `reject_call` and `end_call` go on to purge a call that they got. -/
def finished (d : CallDesk) : CallTable.Step → List String
  | .finish i closes =>
    match d.table.closing[i]?, (d.table.finish i closes).1 with
    | some k, some (.ok call) => if k.op = .failCall then [] else [call.id]
    | _, _ => []
  | _ => []

/-- What a step has of the nonces, and the calls after it. -/
def step (d : CallDesk) : Step → Option NonceStep × CallDesk
  | .verifyMessage m key => (some (.verifyMessage m key), d)
  | .table s => (none, { d with table := d.table.step s, purging := d.purging ++ d.finished s })
  | .purge i => (d.purging[i]?.map .purgeCallNonces, { d with purging := d.purging.eraseIdx i })
  | .peerOffline did =>
    (none, { d with sweeping := d.sweeping ++ d.table.listActiveCalls.map fun call => (did, call.id) })
  | .sweep i =>
    ((d.sweeping[i]?.filter fun s => d.getRemotePeer s.2 = some s.1).map fun s => .purgeCallNonces s.2,
      { d with sweeping := d.sweeping.eraseIdx i })

/-- What a run has of the nonces. -/
def trace : CallDesk → List Step → List NonceStep
  | _, [] => []
  | d, e :: es => (d.step e).1.toList ++ trace (d.step e).2 es

end CallDesk

end Variance
