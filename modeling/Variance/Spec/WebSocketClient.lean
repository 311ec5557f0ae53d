import Variance.Lib.Run
import Mathlib.Data.Nat.Notation

/-! The frontend's connection to the app, `VarianceWebSocket` (`app/src/api/websocket.ts`), with all the sockets it
has made, the timers that run and the port lookups that are under way. How long a timer waits is left out: each may
fire at any time. -/

namespace Variance

/-- `CONNECTING`, `OPEN`, `CLOSING`, `CLOSED`. -/
inductive ReadyState
  | connecting
  | opened
  | closing
  | closed
deriving DecidableEq

/-- A socket goes by its place among those that were made, a timer by a number. -/
structure VarianceWebSocket where
  ws : Option ℕ
  stopped : Bool
  reconnectTimer : Option ℕ
  heartbeatTimer : Option ℕ
  sockets : List ReadyState
  /-- The calls of `get_api_port` that are awaited. -/
  lookups : ℕ
  timeouts : List ℕ
  intervals : List ℕ
  nextTimer : ℕ
  /-- The sockets that were sent a `Ping`. -/
  pings : List ℕ

namespace VarianceWebSocket

def new : VarianceWebSocket where
  ws := none
  stopped := false
  reconnectTimer := none
  heartbeatTimer := none
  sockets := []
  lookups := 0
  timeouts := []
  intervals := []
  nextTimer := 1
  pings := []

/-- `WebSocket.close`. -/
def closeSocket (s : VarianceWebSocket) (i : ℕ) : VarianceWebSocket :=
  match s.sockets[i]? with
  | some .connecting | some .opened => { s with sockets := s.sockets.set i .closing }
  | _ => s

def clearReconnect (s : VarianceWebSocket) : VarianceWebSocket :=
  match s.reconnectTimer with
  | none => s
  | some t => { s with timeouts := s.timeouts.erase t, reconnectTimer := none }

def clearHeartbeat (s : VarianceWebSocket) : VarianceWebSocket :=
  match s.heartbeatTimer with
  | none => s
  | some t => { s with intervals := s.intervals.erase t, heartbeatTimer := none }

/-- `connect` up to the port lookup, which is awaited. -/
def connect (s : VarianceWebSocket) : VarianceWebSocket := { s with stopped := false, lookups := s.lookups + 1 }

def disconnect (s : VarianceWebSocket) : VarianceWebSocket :=
  let s := { s with stopped := true }.clearReconnect.clearHeartbeat
  let s := match s.ws with
    | none => s
    | some i => s.closeSocket i
  { s with ws := none }

def scheduleReconnect (s : VarianceWebSocket) : VarianceWebSocket :=
  if s.stopped then s
  else { s with
    timeouts := s.timeouts ++ [s.nextTimer]
    reconnectTimer := some s.nextTimer
    nextTimer := s.nextTimer + 1 }

/-- `attemptConnect` from the port on; an error has been made `none`, and 0 is no port either. -/
def attemptConnect (s : VarianceWebSocket) (port : Option ℕ) : VarianceWebSocket :=
  if port.getD 0 = 0 then s.scheduleReconnect
  else { s with sockets := s.sockets ++ [.connecting], ws := some s.sockets.length }

def onopen (s : VarianceWebSocket) : VarianceWebSocket :=
  { s with
    intervals := s.intervals ++ [s.nextTimer]
    heartbeatTimer := some s.nextTimer
    nextTimer := s.nextTimer + 1 }

def onclose (s : VarianceWebSocket) : VarianceWebSocket :=
  let s := { s.clearHeartbeat with ws := none }
  if s.stopped then s else s.scheduleReconnect

def heartbeat (s : VarianceWebSocket) : VarianceWebSocket :=
  match s.ws with
  | none => s
  | some i => if s.sockets[i]? = some .opened then { s with pings := s.pings ++ [i] } else s

end VarianceWebSocket

inductive SocketEvent
  | connect
  | disconnect
  /-- A lookup ends. -/
  | lookedUp (port : Option ℕ)
  /-- The callbacks of a socket. -/
  | opened (i : ℕ)
  | closed (i : ℕ)
  | errored (i : ℕ)
  /-- A timer fires. -/
  | reconnect (t : ℕ)
  | heartbeat (t : ℕ)

/-- What the app does not do itself. -/
def SocketEvent.IsCallback : SocketEvent → Prop
  | .connect | .disconnect => False
  | _ => True

namespace VarianceWebSocket

/-- A socket opens once, while it is connecting, and closes once; what has not been started does not end. -/
def step (s : VarianceWebSocket) : SocketEvent → VarianceWebSocket
  | .connect => s.connect
  | .disconnect => s.disconnect
  | .lookedUp port => if s.lookups = 0 then s else { s with lookups := s.lookups - 1 }.attemptConnect port
  | .opened i =>
    if s.sockets[i]? = some .connecting then { s with sockets := s.sockets.set i .opened }.onopen else s
  | .closed i =>
    match s.sockets[i]? with
    | none | some .closed => s
    | some _ => { s with sockets := s.sockets.set i .closed }.onclose
  | .errored i => s.closeSocket i
  | .reconnect t =>
    if t ∈ s.timeouts then { s with timeouts := s.timeouts.erase t, lookups := s.lookups + 1 } else s
  | .heartbeat t => if t ∈ s.intervals then s.heartbeat else s

/-- Connecting or open. -/
def LiveSocket (s : VarianceWebSocket) (i : ℕ) : Prop :=
  s.sockets[i]? = some .connecting ∨ s.sockets[i]? = some .opened

/-- Its close callback has not run yet. -/
def Unclosed (s : VarianceWebSocket) (i : ℕ) : Prop := ∃ r, s.sockets[i]? = some r ∧ r ≠ .closed

/-- The sockets that a server event comes through; each handler is called once for each of them. -/
def deliveries (s : VarianceWebSocket) : List ℕ :=
  (List.range s.sockets.length).filter fun i => s.sockets[i]? = some .opened

/-- One live connection after the step: one socket, one heartbeat, one reconnect, one delivery; the close callback of
a socket leaves another that is in use; and after a disconnect nothing is left once the callbacks have run. -/
structure Right (s : VarianceWebSocket) (e : SocketEvent) : Prop where
  one : ∀ i j, (s.step e).LiveSocket i → (s.step e).LiveSocket j → i = j
  once : (s.step e).deliveries.length ≤ 1
  heartbeats : (s.step e).intervals.length ≤ 1
  reconnects : (s.step e).timeouts.length ≤ 1
  keeps : ∀ i j, e = .closed i → s.ws = some j → j ≠ i → (s.step e).ws = some j
  gone : (s.step e).stopped = true → (s.step e).lookups = 0 →
    (∀ i : ℕ, (s.step e).sockets[i]? ≠ some .closing) → (∀ i, ¬ (s.step e).LiveSocket i) ∧ (s.step e).ws = none ∧
      (s.step e).intervals = [] ∧ (s.step e).timeouts = []

/-- The condition, on the calls alone: a connection is begun when nothing is left of one before, and ended at any time
but during a lookup. -/
def Careful (s : VarianceWebSocket) : SocketEvent → Prop
  | .connect => s.lookups = 0 ∧ s.timeouts = [] ∧ ∀ i, ¬ s.Unclosed i
  | .disconnect => s.lookups = 0
  | _ => True

end VarianceWebSocket

def socketSys : StepSystem.Sys VarianceWebSocket SocketEvent where
  init s := s = .new
  step := VarianceWebSocket.step

end Variance
