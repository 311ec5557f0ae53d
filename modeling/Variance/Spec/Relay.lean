import Mathlib.Algebra.GroupWithZero.Nat
import Mathlib.Data.Finset.Card
import Variance.Lib.Run
import Variance.Lib.Text
import Variance.Spec.Storage
import Variance.Spec.Types

/-! The offline relay: `variance-messaging/src/offline.rs` over `storage/offline.rs`. A mailbox is addressed by an
opaque token; the reverse index by message id, which only deletions read, is left out. -/

namespace Variance

inductive OfflineMessage
  | direct (m : DirectMessage)
  | group (m : GroupMessage)
deriving DecidableEq

def OfflineMessage.id : OfflineMessage → String
  | .direct m => m.id
  | .group m => m.id

/-- The time that the sender wrote into the message. -/
def OfflineMessage.timestamp : OfflineMessage → ℤ
  | .direct m => m.timestamp
  | .group m => m.timestamp

structure OfflineMessageEnvelope where
  mailboxToken : Bytes
  message : Option OfflineMessage
  storedAt : ℤ
  expiresAt : ℤ
deriving DecidableEq

/-- The fields that `verify_offline_request_auth` has passed before are left out. -/
structure OfflineMessageRequest where
  mailboxToken : Bytes
  sinceTimestamp : Option ℤ
  limit : UInt32

structure OfflineMessageResponse where
  messages : List OfflineMessageEnvelope
  hasMore : Bool
  nextCursor : Option ℤ
deriving DecidableEq

/-- `{hex(mailbox_token)}:`. -/
def mailboxPrefix (mailboxToken : Bytes) : String := String.ofList (Text.hexChars mailboxToken) ++ ":"

/-- `{hex(mailbox_token)}:{timestamp:020}:{id}`. -/
def offlineKey (mailboxToken : Bytes) (timestamp : ℤ) (id : String) : String :=
  mailboxPrefix mailboxToken ++ pad20 timestamp ++ ":" ++ id

/-- The `offline_messages` tree; every envelope lies under the key that its own fields make. -/
structure RelayStore where
  tree : SledTree OfflineMessageEnvelope
  filed : ∀ (k : String) (e : OfflineMessageEnvelope), tree[k]? = some e →
    ∃ m, e.message = some m ∧ offlineKey e.mailboxToken m.timestamp m.id = k

def RelayStore.empty : RelayStore := ⟨∅, fun _ _ h => by simp at h⟩

/-- The timestamp read back from a key: what stands between its last two colons. -/
def keyTimestamp (key : String) : Option ℤ :=
  match Text.rsplitOnce ':' key with
  | none => none
  | some (beforeId, _) => (Text.rsplitOnce ':' beforeId).bind fun p => Text.parseI64 p.2

/-- Whether the scan of a fetch passes over an entry: a key that gives no timestamp is never passed over. -/
def isLater (since : Option ℤ) (key : String) : Bool :=
  match since, keyTimestamp key with
  | some sinceTs, some ts => decide (sinceTs < ts)
  | _, _ => true

/-- The loop of `fetch_offline`: the limit is looked at after each push. -/
def collectOffline (since : Option ℤ) (limit : ℕ) :
    List (String × OfflineMessageEnvelope) → List OfflineMessageEnvelope → List OfflineMessageEnvelope
  | [], messages => messages
  | (key, envelope) :: entries, messages =>
    if isLater since key then
      let messages := messages ++ [envelope]
      if limit ≤ messages.length then messages else collectOffline since limit entries messages
    else collectOffline since limit entries messages

namespace RelayStore

def storeOffline (s : RelayStore) (envelope : OfflineMessageEnvelope) : Except MsgError Unit × RelayStore :=
  match h : envelope.message with
  | none => (.error (.invalidFormat "Offline envelope has no message"), s)
  | some m =>
    (.ok (), ⟨s.tree.insert (offlineKey envelope.mailboxToken m.timestamp m.id) envelope, fun k e he => by
      rw [get_insert] at he
      split_ifs at he with hk
      · obtain rfl := Option.some.inj he
        exact ⟨m, h, hk⟩
      · exact s.filed k e he⟩)

def mailbox (s : RelayStore) (mailboxToken : Bytes) : List (String × OfflineMessageEnvelope) :=
  scanPrefix (mailboxPrefix mailboxToken) s.tree

def fetchOffline (s : RelayStore) (mailboxToken : Bytes) (since : Option ℤ) (limit : ℕ) :
    List OfflineMessageEnvelope :=
  collectOffline since limit (s.mailbox mailboxToken) []

def countOfflineForMailbox (s : RelayStore) (mailboxToken : Bytes) : ℕ := (s.mailbox mailboxToken).length

/-- `MAX_QUEUED_PER_MAILBOX`. -/
def maxQueuedPerMailbox : ℕ := 512

def storeMessage (s : RelayStore) (now : ℤ) (envelope : OfflineMessageEnvelope) : Except MsgError Unit × RelayStore :=
  if envelope.message.isNone then (.error (.invalidFormat "Envelope must contain a message"), s)
  else if envelope.expiresAt < now then (.error (.messageExpired "envelope"), s)
  else if maxQueuedPerMailbox ≤ s.countOfflineForMailbox envelope.mailboxToken then (.error .relayStorageFull, s)
  else s.storeOffline envelope

/-- One page. `request.limit + 1` is of the limit's own type, in which it wraps. -/
def fetchMessages (s : RelayStore) (request : OfflineMessageRequest) : Except MsgError OfflineMessageResponse :=
  if request.limit = 0 then .error (.invalidFormat "Limit must be greater than 0")
  else
    let messages := s.fetchOffline request.mailboxToken request.sinceTimestamp (request.limit + 1).toNat
    let hasMore := decide (request.limit.toNat < messages.length)
    let actualMessages := if hasMore then messages.take request.limit.toNat else messages
    .ok { messages := actualMessages, hasMore, nextCursor := actualMessages.getLast?.map (·.storedAt) }

/-- A client that asks again with the cursor it was given, until there is no more: all it received, or `none` when
`fuel` pages do not do. -/
def fetchAll (s : RelayStore) (mailboxToken : Bytes) (limit : UInt32) :
    ℕ → Option ℤ → Option (List OfflineMessageEnvelope)
  | 0, _ => none
  | fuel + 1, since =>
    match s.fetchMessages ⟨mailboxToken, since, limit⟩ with
    | .error _ => none
    | .ok r =>
      if r.hasMore then (s.fetchAll mailboxToken limit fuel r.nextCursor).map (r.messages ++ ·)
      else some r.messages

/-- The envelopes of a mailbox that lie after a cursor. -/
def laterThan (s : RelayStore) (mailboxToken : Bytes) (since : Option ℤ) : List OfflineMessageEnvelope :=
  ((s.mailbox mailboxToken).filter fun e => isLater since e.1).map (·.2)

/-- Wherever it starts, the client is done at some point and has every later envelope exactly once. -/
def PagesExactly (s : RelayStore) (mailboxToken : Bytes) (limit : UInt32) : Prop :=
  ∀ since, ∃ fuel received, s.fetchAll mailboxToken limit fuel since = some received ∧
    received.Perm (s.laterThan mailboxToken since)

/-- A full page ends with an envelope whose `stored_at` parts the timestamps: no later than it lies what the page has,
and later than it all that is left. At the limit's greatest value no page is full, and one envelope is all there
may be. -/
def CursorParts (s : RelayStore) (mailboxToken : Bytes) (limit : UInt32) : Prop :=
  if limit + 1 = 0 then (s.mailbox mailboxToken).length ≤ 1
  else ∀ since last, limit.toNat < (s.laterThan mailboxToken since).length →
    ((s.laterThan mailboxToken since).take limit.toNat).getLast? = some last →
    s.laterThan mailboxToken (some last.storedAt) = (s.laterThan mailboxToken since).drop limit.toNat

end RelayStore
end Variance

/-! The counters of the relay node (`variance-relay/src/main.rs`), and beside them the reservations that are live at
the relay server: one for each connection that was granted one and has neither timed out nor gone. -/

namespace Variance

/-- `saturating_sub` is the subtraction of `ℕ`. -/
structure RelayStats where
  activeReservations : ℕ
  activeCircuits : ℕ
  totalReservations : ℕ
  totalCircuits : ℕ
  deniedReservations : ℕ
  deniedCircuits : ℕ
  peerReservations : SledTree ℕ

namespace RelayStats

def new : RelayStats := ⟨0, 0, 0, 0, 0, 0, ∅⟩

def reservationAccepted (s : RelayStats) (peer : PeerId) : RelayStats :=
  { s with
    activeReservations := s.activeReservations + 1
    totalReservations := s.totalReservations + 1
    peerReservations := s.peerReservations.insert peer ((s.peerReservations[peer]?).getD 0 + 1) }

def reservationTimedOut (s : RelayStats) (peer : PeerId) : RelayStats :=
  { s with
    activeReservations := s.activeReservations - 1
    peerReservations :=
      match s.peerReservations[peer]? with
      | none => s.peerReservations
      | some count =>
        if count - 1 = 0 then s.peerReservations.erase peer else s.peerReservations.insert peer (count - 1) }

def peerDisconnected (s : RelayStats) (peer : PeerId) : RelayStats :=
  match s.peerReservations[peer]? with
  | none => s
  | some count =>
    { s with
      peerReservations := s.peerReservations.erase peer
      activeReservations := if 0 < count then s.activeReservations - count else s.activeReservations }

end RelayStats

/-- The relay server's events; `renewed` is not read. -/
inductive RelayEvent
  | reservationReqAccepted (srcPeerId : PeerId) (renewed : Bool)
  | reservationReqDenied (srcPeerId : PeerId)
  | reservationTimedOut (srcPeerId : PeerId)
  | circuitReqAccepted (srcPeerId dstPeerId : PeerId)
  | circuitReqDenied (srcPeerId dstPeerId : PeerId)
  | circuitClosed (srcPeerId dstPeerId : PeerId)
deriving DecidableEq

def handleRelayEvent (stats : RelayStats) : RelayEvent → RelayStats
  | .reservationReqAccepted srcPeerId _ => stats.reservationAccepted srcPeerId
  | .reservationReqDenied _ => { stats with deniedReservations := stats.deniedReservations + 1 }
  | .reservationTimedOut srcPeerId => stats.reservationTimedOut srcPeerId
  | .circuitReqAccepted _ _ =>
    { stats with activeCircuits := stats.activeCircuits + 1, totalCircuits := stats.totalCircuits + 1 }
  | .circuitReqDenied _ _ => { stats with deniedCircuits := stats.deniedCircuits + 1 }
  | .circuitClosed _ _ => { stats with activeCircuits := stats.activeCircuits - 1 }

/-- The arm of the event loop: only when no connection to the peer is left. -/
def handleConnectionClosed (stats : RelayStats) (peerId : PeerId) (numEstablished : ℕ) : RelayStats :=
  if numEstablished = 0 then stats.peerDisconnected peerId else stats

structure RelayWorld where
  stats : RelayStats
  live : Finset (PeerId × ℕ)

/-- An event of the relay server, with the connection it is about; and a connection that closes, with the number of
the peer's connections that are left. -/
inductive RelayOp
  | relay (event : RelayEvent) (connection : ℕ)
  | closed (peerId : PeerId) (connection numEstablished : ℕ)

namespace RelayWorld

/-- A renewal grants nothing new; a peer without a connection holds nothing. -/
def liveAfter (live : Finset (PeerId × ℕ)) : RelayOp → Finset (PeerId × ℕ)
  | .relay (.reservationReqAccepted peer renewed) c => if renewed then live else insert (peer, c) live
  | .relay (.reservationTimedOut peer) c => live.erase (peer, c)
  | .relay _ _ => live
  | .closed peer c numEstablished =>
    if numEstablished = 0 then live.filter fun r => r.1 ≠ peer else live.erase (peer, c)

def step (w : RelayWorld) (op : RelayOp) : RelayWorld where
  stats := match op with
    | .relay event _ => handleRelayEvent w.stats event
    | .closed peer _ numEstablished => handleConnectionClosed w.stats peer numEstablished
  live := liveAfter w.live op

def init : RelayWorld := ⟨.new, ∅⟩

/-- The reservations that are counted are the live ones, in all and peer by peer; no peer is kept without one, and
none has more to give back than there are. -/
structure Accounted (w : RelayWorld) : Prop where
  summed : w.stats.activeReservations = (w.stats.peerReservations.toList.map (·.2)).sum
  live : w.stats.activeReservations = w.live.card
  positive : ∀ (p : PeerId) (n : ℕ), w.stats.peerReservations[p]? = some n → 0 < n
  covered : ∀ (p : PeerId) (n : ℕ), w.stats.peerReservations[p]? = some n → n ≤ w.stats.activeReservations

/-- A reservation is granted anew, runs out or is lost with its connection only when the counters can tell: a grant
is no renewal and its connection holds none yet, what times out is live, and a connection that closes beside others
of its peer holds none. -/
def Told (w : RelayWorld) : RelayOp → Prop
  | .relay (.reservationReqAccepted peer renewed) c => renewed = false ∧ (peer, c) ∉ w.live
  | .relay (.reservationTimedOut peer) c => (peer, c) ∈ w.live ∨ w.live = ∅
  | .relay _ _ => True
  | .closed peer c numEstablished => numEstablished = 0 ∨ (peer, c) ∉ w.live

end RelayWorld

def relaySys : StepSystem.Sys RelayWorld RelayOp where
  init w := w = .init
  step := RelayWorld.step

end Variance
