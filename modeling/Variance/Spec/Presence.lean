import Mathlib.Data.Finset.Basic
import Variance.Lib.Alternation
import Variance.Spec.PeerMap

/-! Who is connected: the connection events of the swarm loop (`p2p/src/node/event_handlers.rs`), what they do to
the map of DIDs, and the buckets of `p2p/src/rate_limiter.rs`. How full a bucket is depends on the clock; only which
buckets there are is kept, and what `try_consume` answers comes with the event. -/

namespace Variance

structure PeerRateLimiter where
  protocolBuckets : Finset (PeerId × String)
  globalBuckets : Finset PeerId
  /-- The labels that have a configuration. -/
  configs : List String
  /-- The inverted index: which labels a peer has used. -/
  peerProtocols : SledTree (List String)

inductive RateLimitDecision
  | allowed
  | protocolLimited
  | globalLimited
deriving DecidableEq

def RateLimitDecision.isAllowed (d : RateLimitDecision) : Bool := d = .allowed

/-- What the two buckets of a check answer. -/
structure Tokens where
  protocol : Bool
  global : Bool

namespace PeerRateLimiter

def new : PeerRateLimiter where
  protocolBuckets := ∅
  globalBuckets := ∅
  configs := ["direct_messages", "typing_indicators", "signaling", "identity", "offline_messages", "rename", "group_sync"]
  peerProtocols := ∅

/-- `protocol_buckets.entry(..).or_insert_with(..)`: a first request is noted in the index. -/
def protocolBucket (l : PeerRateLimiter) (peer : PeerId) (label : String) : PeerRateLimiter :=
  if (peer, label) ∈ l.protocolBuckets then l
  else
    { l with
      protocolBuckets := insert (peer, label) l.protocolBuckets
      peerProtocols := l.peerProtocols.insert peer ((l.peerProtocols[peer]?).getD [] ++ [label]) }

/-- A label without a configuration is let through, and leaves no bucket. -/
def check (l : PeerRateLimiter) (peer : PeerId) (label : String) (tokens : Tokens) :
    RateLimitDecision × PeerRateLimiter :=
  if label ∈ l.configs then
    let l := l.protocolBucket peer label
    if tokens.protocol then
      let l := { l with globalBuckets := insert peer l.globalBuckets }
      (if tokens.global then .allowed else .globalLimited, l)
    else (.protocolLimited, l)
  else (.allowed, l)

def removePeer (l : PeerRateLimiter) (peer : PeerId) : PeerRateLimiter :=
  { l with
    globalBuckets := l.globalBuckets.erase peer
    peerProtocols := l.peerProtocols.erase peer
    protocolBuckets :=
      ((l.peerProtocols[peer]?).getD []).foldl (fun buckets label => buckets.erase (peer, label)) l.protocolBuckets }

/-- The peer has a bucket. -/
def Tracks (l : PeerRateLimiter) (peer : PeerId) : Prop :=
  peer ∈ l.globalBuckets ∨ ∃ label, (peer, label) ∈ l.protocolBuckets

end PeerRateLimiter

/-- The swarm loop and its connections. `announcing` holds the events of tasks that have written the map and not sent
them yet. -/
structure PresenceNode where
  map : MapNode
  limiter : PeerRateLimiter
  connections : PeerId → ℕ
  announcing : List MapEvent

/-- What reaches the swarm loop: connections; messages, each after a check of the rate limiter (`request` stands for
those that have nothing to do with the map); tasks, which write the map first and then send their event. -/
inductive PresenceEvent
  | connectionEstablished (peer : PeerId)
  | connectionClosed (peer : PeerId)
  | gossip (propagationSource : PeerId) (message : Option GroupMessage) (tokens : Tokens)
  | directMessage (peer : PeerId) (request : DirectMessage) (tokens : Tokens) (f : Faults)
  | identityRequest (peer : PeerId) (query : Option IdentityQuery) (tokens : Tokens)
  | request (peer : PeerId) (label : String) (tokens : Tokens)
  | identityResponse (peer : PeerId) (result : IdentityResult)
  | runTask (i : ℕ) (f : Faults)
  | announce (i : ℕ)

namespace PresenceNode

/-- `handle_connection_closed`; how many connections are left is not looked at. -/
def handleConnectionClosed (n : PresenceNode) (peer : PeerId) : PresenceNode :=
  { n with
    limiter := n.limiter.removePeer peer
    map := n.map.handleConnectionClosed peer
    connections := Function.update n.connections peer (n.connections peer - 1) }

/-- A spawned task, up to its event. -/
def runTask (E : Ed25519) (n : PresenceNode) (f : Faults) (i : ℕ) : PresenceNode :=
  match n.map.tasks[i]? with
  | none => n
  | some task =>
    let map := { n.map with tasks := n.map.tasks.eraseIdx i, events := [] }.runTask E f task
    { n with map := { map with events := n.map.events }, announcing := n.announcing ++ map.events }

def announce (n : PresenceNode) (i : ℕ) : PresenceNode :=
  match n.announcing[i]? with
  | none => n
  | some e =>
    { n with map := { n.map with events := n.map.events ++ [e] }, announcing := n.announcing.eraseIdx i }

def step (E : Ed25519) (n : PresenceNode) : PresenceEvent → PresenceNode
  | .connectionEstablished peer =>
    { n with connections := Function.update n.connections peer (n.connections peer + 1) }
  | .connectionClosed peer => n.handleConnectionClosed peer
  | .gossip source message tokens =>
    let (decision, limiter) := n.limiter.check source "direct_messages" tokens
    { n with limiter, map := n.map.handleGossip source message decision.isAllowed }
  | .directMessage peer request tokens f =>
    let (decision, limiter) := n.limiter.check peer "direct_messages" tokens
    { n with limiter, map := n.map.handleDirectMessage f peer request decision.isAllowed }
  | .identityRequest peer query tokens =>
    let (decision, limiter) := n.limiter.check peer "identity" tokens
    { n with limiter, map := (n.map.handleIdentityRequest query decision.isAllowed).2 }
  | .request peer label tokens => { n with limiter := (n.limiter.check peer label tokens).2 }
  | .identityResponse peer result => { n with map := n.map.handleIdentityResponse peer result }
  | .runTask i f => n.runTask E f i
  | .announce i => n.announce i

/-- A node that has just started, with what an earlier run left in its peer store and its handler. -/
structure Fresh (n : PresenceNode) : Prop where
  didToPeer : n.map.didToPeer = ∅
  tasks : n.map.tasks = []
  events : n.map.events = []
  limiter : n.limiter = .new
  connections : ∀ p, n.connections p = 0
  announcing : n.announcing = []

/-- No connection of the peer is left when this one closes. -/
def Last (n : PresenceNode) (peer : PeerId) : Prop := n.connections peer ≤ 1

/-- A DID of the peer, by the map. -/
def Maps (n : PresenceNode) (did : Did) (peer : PeerId) : Prop := n.map.didToPeer[did]? = some peer

abbrev Alternates : List MapEvent → Prop := Alternation.Alternates MapEvent.didCached MapEvent.peerOffline

/-- The DID was said to be offline, and not to be reached since. -/
abbrev Offline (n : PresenceNode) (did : Did) : Prop :=
  Alternation.Down MapEvent.didCached MapEvent.peerOffline did n.map.events

/-- A step takes a mapping, says that a DID is offline and drops buckets only as the last connection of the peer
closes; then none of them is left; and nobody goes offline twice without having been reached in between. -/
structure Faithful (E : Ed25519) (n : PresenceNode) (e : PresenceEvent) : Prop where
  mapping : ∀ did peer, n.Maps did peer → (n.step E e).map.didToPeer[did]? = none →
    e = .connectionClosed peer ∧ n.Last peer
  offline : ∀ did, .peerOffline did ∈ (n.step E e).map.events.drop n.map.events.length →
    ∃ peer, n.Maps did peer ∧ e = .connectionClosed peer ∧ n.Last peer
  buckets : ∀ peer, n.limiter.Tracks peer → ¬ (n.step E e).limiter.Tracks peer →
    e = .connectionClosed peer ∧ n.Last peer
  gone : ∀ peer, e = .connectionClosed peer → n.Last peer →
    (∀ did, ¬ (n.step E e).Maps did peer) ∧ ¬ (n.step E e).limiter.Tracks peer
  alternates : Alternates (n.step E e).map.events

/-- A connection that closes is its peer's last, unless the peer has neither a DID nor a bucket; and no DID of the
peer, offline by the last that was said, waits for its announcement. -/
def Alone (n : PresenceNode) : PresenceEvent → Prop
  | .connectionClosed peer =>
    (n.Last peer ∨ (∀ did, ¬ n.Maps did peer) ∧ ¬ n.limiter.Tracks peer) ∧
      ∀ did, n.Maps did peer → .didCached did ∈ n.announcing → ¬ n.Offline did
  | _ => True

end PresenceNode

def presenceSys (E : Ed25519) : StepSystem.Sys PresenceNode PresenceEvent where
  init := PresenceNode.Fresh
  step := PresenceNode.step E

end Variance
