import Mathlib.Data.Finset.Basic
import Variance.Lib.Run
import Variance.Spec.Types

/-! What the swarm loop asks the network and answers later (`p2p/src/node/mod.rs`, `event_handlers.rs`): identity
requests to one peer, the providers of a username, and on its own account the relays that the DHT knows of. -/

namespace Variance

/-- What comes back of a `get_providers` query. -/
inductive KadProgress
  | foundProviders (providers : List PeerId)
  | finished
  | failed (error : String)
deriving DecidableEq

/-- What a caller's channel is sent; the response to an identity request is handed on as it came. -/
inductive QueryReply (ρ : Type)
  | identity (r : Except String ρ)
  | providers (r : Except String (List PeerId))

inductive QueryEffect (ρ : Type)
  | reply (caller : ℕ) (r : QueryReply ρ)
  | dial (peer : PeerId)

namespace QueryEffect
variable {ρ : Type}

def replyTo (caller : ℕ) : QueryEffect ρ → Option (QueryReply ρ)
  | .reply c r => if c = caller then some r else none
  | .dial _ => none

def dialed : QueryEffect ρ → Option PeerId
  | .reply _ _ => none
  | .dial p => some p

end QueryEffect

structure QueryNode where
  /-- Request id → the caller's channel. -/
  pendingIdentityRequests : Std.ExtTreeMap ℕ ℕ
  pendingProviderQueries : Std.ExtTreeMap ℕ (List PeerId × ℕ)
  relayPeerIds : Finset PeerId
  pendingRelayQuery : Option ℕ

namespace QueryNode
variable {ρ : Type}

/-- `SendIdentityRequest`, with the id that `send_request` gives. -/
def sendIdentityRequest (n : QueryNode) (caller requestId : ℕ) : QueryNode :=
  { n with pendingIdentityRequests := n.pendingIdentityRequests.insert requestId caller }

def findUsernameProviders (n : QueryNode) (caller queryId : ℕ) : QueryNode :=
  { n with pendingProviderQueries := n.pendingProviderQueries.insert queryId ([], caller) }

/-- Whether a query is made, with the id that `get_providers` gives. -/
def triggerRelayDiscovery (n : QueryNode) (queryId : ℕ) : Bool × QueryNode :=
  if n.pendingRelayQuery.isSome then (false, n) else (true, { n with pendingRelayQuery := some queryId })

/-- The caller's part of a response, or of a failure. -/
def settleIdentityRequest (n : QueryNode) (requestId : ℕ) (r : Except String ρ) : List (QueryEffect ρ) × QueryNode :=
  match n.pendingIdentityRequests[requestId]? with
  | none => ([], n)
  | some caller =>
    ([.reply caller (.identity r)], { n with pendingIdentityRequests := n.pendingIdentityRequests.erase requestId })

def handleIdentityResponse (n : QueryNode) (requestId : ℕ) (response : ρ) : List (QueryEffect ρ) × QueryNode :=
  n.settleIdentityRequest requestId (.ok response)

def identityError (peer : PeerId) (error : String) : String := "Identity request to " ++ peer ++ " failed: " ++ error

def handleIdentityFailure (n : QueryNode) (peer : PeerId) (requestId : ℕ) (error : String) :
    List (QueryEffect ρ) × QueryNode :=
  n.settleIdentityRequest requestId (.error (identityError peer error))

/-- The relays among the providers that are new, each of which is dialed; that the dial fails is only logged. -/
def newRelays (known : Finset PeerId) : List PeerId → List PeerId
  | [] => []
  | p :: ps => if p ∈ known then newRelays known ps else p :: newRelays (insert p known) ps

def foundProviders (n : QueryNode) (queryId : ℕ) (providers : List PeerId) : List (QueryEffect ρ) × QueryNode :=
  let new := if n.pendingRelayQuery = some queryId then newRelays n.relayPeerIds providers else []
  let n := { n with relayPeerIds := n.relayPeerIds ∪ new.toFinset }
  (new.map .dial, match n.pendingProviderQueries[queryId]? with
    | none => n
    | some (peers, caller) =>
      { n with pendingProviderQueries := n.pendingProviderQueries.insert queryId (peers ++ providers, caller) })

/-- The last event of a query; `answer` is what a caller gets who has been found these. -/
def endQuery (n : QueryNode) (queryId : ℕ) (answer : List PeerId → Except String (List PeerId)) :
    List (QueryEffect ρ) × QueryNode :=
  let n := { n with pendingRelayQuery := if n.pendingRelayQuery = some queryId then none else n.pendingRelayQuery }
  match n.pendingProviderQueries[queryId]? with
  | none => ([], n)
  | some (peers, caller) =>
    ([.reply caller (.providers (answer peers))],
      { n with pendingProviderQueries := n.pendingProviderQueries.erase queryId })

/-- `OutboundQueryProgressed`. -/
def handleKadEvent (n : QueryNode) (queryId : ℕ) : KadProgress → List (QueryEffect ρ) × QueryNode
  | .foundProviders providers => n.foundProviders queryId providers
  | .finished => n.endQuery queryId .ok
  | .failed error => n.endQuery queryId fun _ => .error ("get_providers failed: " ++ error)

end QueryNode

/-! Runs: commands, ticks, and whatever the network says of what was asked -/

/-- What a caller waits for. -/
inductive QueryTicket
  | identity (requestId : ℕ)
  | providers (queryId : ℕ)
deriving DecidableEq

/-- The loop, the ids given so far, who waits for what, and what came of each request and query. -/
structure QueryWorld (ρ : Type) where
  node : QueryNode
  requests : ℕ
  queries : ℕ
  callers : List QueryTicket
  relayQueries : List ℕ
  identityLog : ℕ → List (Except String ρ)
  kadLog : ℕ → List KadProgress
  effects : List (QueryEffect ρ)

inductive QueryEvent (ρ : Type)
  | sendIdentityRequest
  | findUsernameProviders
  | relayTick
  /-- A request, or a query, that is made for something else. -/
  | request
  | query
  | identityResponse (requestId : ℕ) (response : ρ)
  | identityFailure (requestId : ℕ) (peer : PeerId) (error : String)
  | kad (queryId : ℕ) (p : KadProgress)

namespace QueryWorld
variable {ρ : Type}

def took (w : QueryWorld ρ) (r : List (QueryEffect ρ) × QueryNode) : QueryWorld ρ :=
  { w with node := r.2, effects := w.effects ++ r.1 }

/-- The network says nothing of what was not asked. -/
def step (w : QueryWorld ρ) : QueryEvent ρ → QueryWorld ρ
  | .sendIdentityRequest =>
    { w with
      node := w.node.sendIdentityRequest w.callers.length w.requests
      requests := w.requests + 1
      callers := w.callers ++ [.identity w.requests] }
  | .findUsernameProviders =>
    { w with
      node := w.node.findUsernameProviders w.callers.length w.queries
      queries := w.queries + 1
      callers := w.callers ++ [.providers w.queries] }
  | .relayTick =>
    let r := w.node.triggerRelayDiscovery w.queries
    if r.1 then { w with node := r.2, queries := w.queries + 1, relayQueries := w.relayQueries ++ [w.queries] } else w
  | .request => { w with requests := w.requests + 1 }
  | .query => { w with queries := w.queries + 1 }
  | .identityResponse q response =>
    if q < w.requests then
      { w.took (w.node.handleIdentityResponse q response) with
        identityLog := Function.update w.identityLog q (w.identityLog q ++ [.ok response]) }
    else w
  | .identityFailure q peer error =>
    if q < w.requests then
      { w.took (w.node.handleIdentityFailure peer q error) with
        identityLog := Function.update w.identityLog q
          (w.identityLog q ++ [.error (QueryNode.identityError peer error)]) }
    else w
  | .kad q p =>
    if q < w.queries then
      { w.took (w.node.handleKadEvent q p) with kadLog := Function.update w.kadLog q (w.kadLog q ++ [p]) }
    else w

/-- What the caller's channel was sent. -/
def replies (w : QueryWorld ρ) (caller : ℕ) : List (QueryReply ρ) := w.effects.filterMap (QueryEffect.replyTo caller)

def dials (w : QueryWorld ρ) : List PeerId := w.effects.filterMap QueryEffect.dialed

end QueryWorld

/-- A loop that has asked nothing yet, with the configured relays. -/
def querySys (ρ : Type) (configured : Finset PeerId) : StepSystem.Sys (QueryWorld ρ) (QueryEvent ρ) where
  init w := w.node = ⟨∅, ∅, configured, none⟩ ∧ w.callers = [] ∧ w.relayQueries = [] ∧
    w.identityLog = (fun _ => []) ∧ w.kadLog = (fun _ => []) ∧ w.effects = []
  step := QueryWorld.step

/-! What a query comes to, by itself -/

namespace KadProgress

def last : KadProgress → Bool
  | .foundProviders _ => false
  | .finished | .failed _ => true

def providers : KadProgress → List PeerId
  | .foundProviders providers => providers
  | .finished | .failed _ => []

/-- All that was found before the end. -/
def found (log : List KadProgress) : List PeerId := (log.takeWhile fun p => !p.last).flatMap providers

/-- The end, once there is one. -/
def outcome (log : List KadProgress) : Option (Except String (List PeerId)) :=
  match log.find? last with
  | some (.failed error) => some (.error ("get_providers failed: " ++ error))
  | some _ => some (.ok (found log))
  | none => none

end KadProgress

namespace QueryWorld
variable {ρ : Type}

/-- Each caller is sent what its own request or query came to, and nothing else. -/
structure Answered (w : QueryWorld ρ) : Prop where
  identity : ∀ (c q : ℕ), w.callers[c]? = some (.identity q) →
    w.replies c = ((w.identityLog q).head?.map .identity).toList
  providers : ∀ (c q : ℕ), w.callers[c]? = some (.providers q) →
    w.replies c = ((KadProgress.outcome (w.kadLog q)).map .providers).toList
  nobody : ∀ c, w.callers.length ≤ c → w.replies c = []

/-- The search for relays that is under way is the only one. Whoever any of them found has been dialed, once and for
all, but for the configured relays. -/
structure Searches (configured : Finset PeerId) (w : QueryWorld ρ) : Prop where
  single : ∀ q, w.node.pendingRelayQuery = some q ↔ q ∈ w.relayQueries ∧ KadProgress.outcome (w.kadLog q) = none
  once : w.dials.Nodup
  dialed : ∀ p, p ∈ w.dials ↔ p ∉ configured ∧ ∃ q ∈ w.relayQueries, p ∈ KadProgress.found (w.kadLog q)

end QueryWorld

end Variance

/-! Auto-discovery (`p2p/src/node/event_handlers.rs` and `mod.rs`): on a connection, and when our own identity is set,
a peer is asked who it is; a peer that asks us and is not known yet is asked back, once a connection. -/

namespace Variance

/-- The swarm loop, as far as discovery goes. -/
structure DiscoveryNode where
  didToPeer : SledTree PeerId
  /-- Request id → peer. -/
  pendingAutoDiscovery : Std.ExtTreeMap ℕ PeerId
  reciprocalAttempted : Finset PeerId

namespace DiscoveryNode

def hasMapping (n : DiscoveryNode) (peer : PeerId) : Bool := n.didToPeer.toList.any fun e => e.2 = peer

def isPending (n : DiscoveryNode) (peer : PeerId) : Bool := n.pendingAutoDiscovery.toList.any fun e => e.2 = peer

/-- The request has been sent, under that id. -/
def handleConnectionEstablished (n : DiscoveryNode) (peer : PeerId) (requestId : ℕ) : DiscoveryNode :=
  { n with pendingAutoDiscovery := n.pendingAutoDiscovery.insert requestId peer }

def handleConnectionClosed (n : DiscoveryNode) (peer : PeerId) : DiscoveryNode :=
  { n with
    reciprocalAttempted := n.reciprocalAttempted.erase peer
    didToPeer := n.didToPeer.filter fun _ p => p ≠ peer }

/-- Whether the peer of an inbound request is asked back. -/
def reciprocates (n : DiscoveryNode) (peer : PeerId) (allowed : Bool) : Bool :=
  allowed && !decide (peer ∈ n.reciprocalAttempted) && !n.isPending peer && !n.hasMapping peer

/-- An inbound request; `requestId` is the id of the query back, if there is one. -/
def handleIdentityRequest (n : DiscoveryNode) (peer : PeerId) (allowed : Bool) (requestId : ℕ) : DiscoveryNode :=
  if n.reciprocates peer allowed then
    { n with
      reciprocalAttempted := insert peer n.reciprocalAttempted
      pendingAutoDiscovery := n.pendingAutoDiscovery.insert requestId peer }
  else n

/-- The connected peers that `SetLocalIdentity` asks again. -/
def unmapped (n : DiscoveryNode) (connected : List PeerId) : List PeerId :=
  connected.filter fun peer => !n.hasMapping peer

def setLocalIdentity (n : DiscoveryNode) (connected : List PeerId) (requestIds : List ℕ) : DiscoveryNode :=
  { n with pendingAutoDiscovery :=
      (requestIds.zip (n.unmapped connected)).foldl (fun t e => t.insert e.1 e.2) n.pendingAutoDiscovery }

def handleIdentityResponse (n : DiscoveryNode) (requestId : ℕ) : DiscoveryNode :=
  { n with pendingAutoDiscovery := n.pendingAutoDiscovery.erase requestId }

/-- The failed request is struck from the other two tables only. -/
def handleOutboundFailure (n : DiscoveryNode) (_requestId : ℕ) : DiscoveryNode := n

end DiscoveryNode

/-- How a request comes to its end. -/
inductive IdentityOutcome
  | response (found : Bool)
  | failure
deriving DecidableEq

/-- An identity request of ours. -/
structure IdentityQueried where
  peer : PeerId
  autoDiscovery : Bool

/-- The swarm loop, and the requests sent: their ids count up, and each comes to one end. -/
structure DiscoveryWorld where
  node : DiscoveryNode
  requests : List IdentityQueried
  outcome : ℕ → Option IdentityOutcome

inductive DiscoveryEvent
  | connectionEstablished (peer : PeerId)
  | connectionClosed (peer : PeerId)
  | request (peer : PeerId) (allowed : Bool)
  | setLocalIdentity (connected : List PeerId)
  /-- `SendIdentityRequest`, and each request of a broadcast. -/
  | send (peer : PeerId)
  /-- Other handlers and spawned tasks write the map. -/
  | mapping (didToPeer : SledTree PeerId)
  | response (requestId : ℕ) (found : Bool)
  | outboundFailure (requestId : ℕ)

namespace DiscoveryWorld

def sent (w : DiscoveryWorld) : ℕ := w.requests.length

/-- A request of ours that waits for its end. -/
def Waiting (w : DiscoveryWorld) (requestId : ℕ) : Prop :=
  requestId < w.sent ∧ w.outcome requestId = none

instance (w : DiscoveryWorld) (q : ℕ) : Decidable (w.Waiting q) := inferInstanceAs (Decidable (_ ∧ _))

def record (w : DiscoveryWorld) (peers : List PeerId) (autoDiscovery : Bool) : DiscoveryWorld :=
  { w with requests := w.requests ++ peers.map fun peer => ⟨peer, autoDiscovery⟩ }

def next (w : DiscoveryWorld) : DiscoveryEvent → DiscoveryWorld
  | .connectionEstablished peer =>
    record { w with node := w.node.handleConnectionEstablished peer w.sent } [peer] true
  | .connectionClosed peer => { w with node := w.node.handleConnectionClosed peer }
  | .request peer allowed =>
    record { w with node := w.node.handleIdentityRequest peer allowed w.sent }
      (if w.node.reciprocates peer allowed then [peer] else []) true
  | .setLocalIdentity connected =>
    let peers := w.node.unmapped connected
    record { w with node := w.node.setLocalIdentity connected (List.range' w.sent peers.length) } peers true
  | .send peer => w.record [peer] false
  | .mapping didToPeer => { w with node := { w.node with didToPeer } }
  | .response q found =>
    if w.Waiting q then
      { w with
        node := w.node.handleIdentityResponse q
        outcome := Function.update w.outcome q (some (.response found)) }
    else w
  | .outboundFailure q =>
    if w.Waiting q then
      { w with
        node := w.node.handleOutboundFailure q
        outcome := Function.update w.outcome q (some .failure) }
    else w

end DiscoveryWorld

def discoverySys : StepSystem.Sys DiscoveryWorld DiscoveryEvent where
  init w := w.node.didToPeer = ∅ ∧ w.node.pendingAutoDiscovery = ∅ ∧ w.node.reciprocalAttempted = ∅ ∧
    w.requests = [] ∧ w.outcome = fun _ => none
  step := DiscoveryWorld.next

namespace DiscoveryWorld

/-- No identity request to the peer is outstanding. -/
def Idle (w : DiscoveryWorld) (peer : PeerId) : Prop :=
  ∀ q r, w.requests[q]? = some r → r.peer = peer → w.outcome q ≠ none

/-- Without an outstanding request to a peer nothing is pending for it; when it asks, and is unknown and has not been
asked back on this connection, it is asked back. -/
structure Clean (w : DiscoveryWorld) : Prop where
  settled : ∀ peer, w.Idle peer → w.node.isPending peer = false
  reciprocal : ∀ peer, w.Idle peer → peer ∉ w.node.reciprocalAttempted → w.node.hasMapping peer = false →
    (w.next (.request peer true)).requests = w.requests ++ [⟨peer, true⟩]

/-- The condition: no discovery of a peer without an outstanding request has ended in an outbound failure. -/
def NoneFailed (w : DiscoveryWorld) : Prop :=
  ∀ q r, w.requests[q]? = some r → r.autoDiscovery = true → w.Idle r.peer → w.outcome q ≠ some .failure

end DiscoveryWorld
end Variance
