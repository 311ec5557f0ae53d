import Variance.Lib.Run
import Variance.Spec.NameWorld

/-! Broadcast DID resolution (`ResolveIdentityByDid` in `p2p/src/node/mod.rs`, and the bookkeeping of
`handle_identity_response` and of outbound failures): one request to every connected peer, the first Found answers the
caller, and an error when all have settled without one. -/

namespace Variance

/-- What a caller gets: the `IdentityFound`, an error, or the error of a channel whose sender was dropped. -/
inductive ResolveReply
  | found (f : FoundName)
  | notFound
  | dropped

structure ResolveNode where
  /-- DID → how many requests remain, and the sender of the caller. -/
  pendingDidBroadcasts : SledTree (ℕ × ℕ)
  pendingResolveRequests : Std.ExtTreeMap ℕ Did

namespace ResolveNode

/-- `ResolveIdentityByDid`, with the ids that `send_request` gives for the connected peers. An entry in the way is
overwritten, and its sender dropped. -/
def resolveIdentityByDid (n : ResolveNode) (did : Did) (caller : ℕ) (requestIds : List ℕ) :
    List (ℕ × ResolveReply) × ResolveNode :=
  if requestIds = [] then ([(caller, .notFound)], n)
  else
    ((n.pendingDidBroadcasts[did]?).toList.map fun old => (old.2, .dropped),
      { pendingDidBroadcasts := n.pendingDidBroadcasts.insert did (requestIds.length, caller)
        pendingResolveRequests := requestIds.foldl (fun t q => t.insert q did) n.pendingResolveRequests })

/-- A Found response. -/
def identityFound (n : ResolveNode) (requestId : ℕ) (f : FoundName) : List (ℕ × ResolveReply) × ResolveNode :=
  match n.pendingResolveRequests[requestId]? with
  | none => ([], n)
  | some did =>
    ((n.pendingDidBroadcasts[did]?).toList.map fun pending => (pending.2, .found f),
      { pendingDidBroadcasts := n.pendingDidBroadcasts.erase did
        pendingResolveRequests := (n.pendingResolveRequests.erase requestId).filter fun _ d => d ≠ did })

/-- Any other response, or an outbound failure. -/
def requestFailed (n : ResolveNode) (requestId : ℕ) : List (ℕ × ResolveReply) × ResolveNode :=
  match n.pendingResolveRequests[requestId]? with
  | none => ([], n)
  | some did =>
    let n := { n with pendingResolveRequests := n.pendingResolveRequests.erase requestId }
    match n.pendingDidBroadcasts[did]? with
    | none => ([], n)
    | some (remaining, caller) =>
      if remaining - 1 = 0 then
        ([(caller, .notFound)], { n with pendingDidBroadcasts := n.pendingDidBroadcasts.erase did })
      else ([], { n with pendingDidBroadcasts := n.pendingDidBroadcasts.insert did (remaining - 1, caller) })

end ResolveNode

/-! Runs: any commands, and each request settled once, in any order -/

/-- How a request settles: a response that is Found, or one that is not, or a failure. -/
inductive Outcome
  | found (f : FoundName)
  | other

/-- A caller: what it asked for, and the requests sent on its behalf. -/
structure Resolve where
  did : Did
  requests : List ℕ

structure ResolveWorld where
  node : ResolveNode
  callers : List Resolve
  sent : ℕ
  outcome : ℕ → Option Outcome
  replies : ℕ → List ResolveReply

inductive ResolveEvent
  /-- The command, with that many peers connected. -/
  | resolve (did : Did) (peers : ℕ)
  | settle (requestId : ℕ) (o : Outcome)

namespace ResolveWorld

/-- Replies reach their callers. -/
def reply (w : ResolveWorld) (rs : List (ℕ × ResolveReply)) : ResolveWorld :=
  { w with replies := fun c => w.replies c ++ (rs.filter fun r => r.1 = c).map (·.2) }

/-- A request settles if it was sent and has not settled before. -/
def next (w : ResolveWorld) : ResolveEvent → ResolveWorld
  | .resolve did peers =>
    let requests := List.range' w.sent peers
    let r := w.node.resolveIdentityByDid did w.callers.length requests
    reply { w with node := r.2, callers := w.callers ++ [⟨did, requests⟩], sent := w.sent + peers } r.1
  | .settle q o =>
    if w.sent ≤ q ∨ (w.outcome q).isSome then w
    else
      let r := match o with
        | .found f => w.node.identityFound q f
        | .other => w.node.requestFailed q
      reply { w with node := r.2, outcome := Function.update w.outcome q (some o) } r.1

end ResolveWorld

def resolveSys : StepSystem.Sys ResolveWorld ResolveEvent where
  init w := w.node.pendingDidBroadcasts = ∅ ∧ w.node.pendingResolveRequests = ∅ ∧ w.callers = [] ∧ w.sent = 0 ∧
    w.outcome = (fun _ => none) ∧ w.replies = fun _ => []
  step := ResolveWorld.next

/-- The response has the document of the DID. -/
def FoundName.About (f : FoundName) (did : Did) : Prop := f.didDocument.map (·.id) = some did

instance (f : FoundName) (did : Did) : Decidable (f.About did) := inferInstanceAs (Decidable (_ = _))

namespace ResolveWorld

/-- Every caller gets one reply, and has it once its requests have settled; it is Found exactly if one of them was
answered Found with its DID, and then with such an answer; it is an error only when all have settled without Found; and
a counter counts the unsettled requests of its own caller, down to one at least. -/
structure Resolved (w : ResolveWorld) : Prop where
  once : ∀ (c : ℕ) (r : Resolve), w.callers[c]? = some r → (w.replies c).length ≤ 1 ∧
    ((∀ q ∈ r.requests, w.outcome q ≠ none) → (w.replies c).length = 1)
  found : ∀ (c : ℕ) (r : Resolve), w.callers[c]? = some r → ((∃ f, .found f ∈ w.replies c) ↔
    ∃ q ∈ r.requests, ∃ f, w.outcome q = some (.found f) ∧ f.About r.did)
  answer : ∀ (c : ℕ) (r : Resolve) (f : FoundName), w.callers[c]? = some r → .found f ∈ w.replies c →
    f.About r.did ∧ ∃ q ∈ r.requests, w.outcome q = some (.found f)
  error : ∀ (c : ℕ) (r : Resolve) (reply : ResolveReply), w.callers[c]? = some r → reply ∈ w.replies c →
    (∀ f, reply ≠ .found f) →
    ∀ q ∈ r.requests, w.outcome q = some .other
  counter : ∀ (did : Did) (k c : ℕ), w.node.pendingDidBroadcasts[did]? = some (k, c) →
    ∃ r, w.callers[c]? = some r ∧ r.did = did ∧ 0 < k ∧ k = r.requests.countP fun q => (w.outcome q).isNone

/-- A DID is resolved while no resolve of it is under way, and a request is answered Found only with the document of
the DID it was for. -/
def Single (w : ResolveWorld) : ResolveEvent → Prop
  | .resolve did peers => peers = 0 ∨ w.node.pendingDidBroadcasts[did]? = none
  | .settle q (.found f) => ∀ r ∈ w.callers, q ∈ r.requests → f.About r.did
  | .settle _ .other => True

end ResolveWorld
end Variance
