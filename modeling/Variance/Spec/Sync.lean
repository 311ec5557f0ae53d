import Variance.Spec.Events
import Variance.Spec.History

/-! Group history sync: a member that comes back asks another for what it missed. The request goes through the swarm
loop (`handle_group_sync_event`, `RespondGroupSync`), is served by the event router (`SyncRequested`), and the answer
is taken in by the requester's (`SyncReceived`). -/

namespace Variance

structure GroupSyncRequest where
  groupId : String
  requesterDid : Did
  sinceTimestamp : ℤ
  limit : ℕ
deriving DecidableEq

structure GroupSyncResponse where
  messages : List GroupMessage
  hasMore : Bool
  errorCode : Option String
  errorMessage : Option String
deriving DecidableEq

/-- `GroupSyncEvent::SyncRequested`. -/
structure SyncRequested where
  peer : PeerId
  groupId : String
  requesterDid : Did
  sinceTimestamp : ℤ
  limit : ℕ
  requestId : ℕ

def effectiveLimit (limit : ℕ) : ℕ := if limit = 0 then 100 else min limit 500

/-- `SyncRequested`: the event router answers from its own storage. -/
def LocalMessageStorage.serveSync (s : LocalMessageStorage) (groupId : String) (sinceTimestamp : ℤ) (limit : ℕ) :
    GroupSyncResponse :=
  let messages := s.fetchGroupSince groupId sinceTimestamp (effectiveLimit limit)
  { messages, hasMore := decide (messages.length = effectiveLimit limit), errorCode := none, errorMessage := none }

/-! The one who is asked -/

/-- What answering a request can read or touch: the node, the peers of known DIDs, and the response channels kept until
the event router has an answer, each with its group. -/
structure SyncResponder (M : OpenMls) where
  node : Node M
  didToPeer : SledTree PeerId
  pendingSyncResponses : Std.ExtTreeMap ℕ String

namespace SyncResponder
variable {M : OpenMls}

/-- A request comes in; `allowed` is the rate limiter's decision about the peer. -/
def handleGroupSyncRequest (r : SyncResponder M) (allowed : Bool) (peer : PeerId) (request : GroupSyncRequest)
    (requestId : ℕ) : (GroupSyncResponse ⊕ SyncRequested) × SyncResponder M :=
  if allowed then
    (.inr ⟨peer, request.groupId, request.requesterDid, request.sinceTimestamp, request.limit, requestId⟩,
      { r with pendingSyncResponses := r.pendingSyncResponses.insert requestId request.groupId })
  else (.inl ⟨[], false, some "429", some "Rate limited"⟩, r)

/-- `RespondGroupSync`: the response is sent if its channel is still there. -/
def respondGroupSync (r : SyncResponder M) (requestId : ℕ) (response : GroupSyncResponse) :
    Option GroupSyncResponse × SyncResponder M :=
  match r.pendingSyncResponses[requestId]? with
  | some _ => (some response, { r with pendingSyncResponses := r.pendingSyncResponses.erase requestId })
  | none => (none, r)

/-- A request from its arrival to what is sent back. -/
def answerGroupSync (r : SyncResponder M) (allowed : Bool) (peer : PeerId) (request : GroupSyncRequest)
    (requestId : ℕ) : Option GroupSyncResponse × SyncResponder M :=
  match r.handleGroupSyncRequest allowed peer request requestId with
  | (.inl response, r) => (some response, r)
  | (.inr event, r) =>
    r.respondGroupSync event.requestId (r.node.storage.serveSync event.groupId event.sinceTimestamp event.limit)

/-- The peer is known as that of a present member. -/
def Bound (r : SyncResponder M) (peer : PeerId) (groupId : String) : Prop :=
  ∃ did : Did, r.didToPeer[did]? = some peer ∧ did ∈ r.node.mls.membersOrDefault groupId

/-- No message of a group goes to a peer that is not bound to one of its members, and the request of such a peer
changes nothing. -/
def SyncGuarded (r : SyncResponder M) (allowed : Bool) (peer : PeerId) (request : GroupSyncRequest) (requestId : ℕ) :
    Prop :=
  (∀ response, (r.answerGroupSync allowed peer request requestId).1 = some response →
    ∀ m ∈ response.messages, r.Bound peer m.groupId) ∧
  (¬ r.Bound peer request.groupId → (r.answerGroupSync allowed peer request requestId).2 = r)

end SyncResponder

/-! The one who asks -/

namespace Node
variable {M : OpenMls}

/-- One round with a responder: the request made when a member connects, its response, and the response taken in. The
group of a response is that of its first message. The other result is the response's `has_more`. -/
def syncRound (n : Node M) (W : Wire) (env : Env) (responder : LocalMessageStorage) (groupId : String) :
    Bool × Node M :=
  let since := (n.storage.latestGroupTimestamp groupId).getD 0
  let response := responder.serveSync groupId since 100
  let received := (response.messages.head?.map (·.groupId)).getD ""
  (response.hasMore, n.handleSyncReceived W received (response.messages.map (env, ·)))

/-- Rounds until a response says that there is no more; `none` when `fuel` rounds do not do. -/
def syncRounds (W : Wire) (env : Env) (responder : LocalMessageStorage) (groupId : String) :
    ℕ → Node M → Option (Node M)
  | 0, _ => none
  | fuel + 1, n =>
    let r := n.syncRound W env responder groupId
    if r.1 then syncRounds W env responder groupId fuel r.2 else some r.2

/-- The rounds come to an end, and every message of the group that the responder held is then held. -/
def SyncComplete (n : Node M) (W : Wire) (env : Env) (responder : LocalMessageStorage) (groupId : String) : Prop :=
  ∃ fuel n', syncRounds W env responder groupId fuel n = some n' ∧
    ∀ m ∈ responder.groupHistory groupId, n'.storage.groupMessages[m.key]? = some m

end Node

/-! What it takes -/

/-- Every message is filed under its key, a group's range of keys has its own messages only, and their timestamps are
such as a clock gives. -/
structure LocalMessageStorage.InOrder (s : LocalMessageStorage) (groupId : String) : Prop where
  filed : ∀ (k : String) (m : GroupMessage), s.groupMessages[k]? = some m → m.key = k
  own : ∀ (k : String) (m : GroupMessage), s.groupMessages[k]? = some m → Text.HasPrefix (groupId ++ ":") k →
    m.groupId = groupId
  timed : ∀ (k : String) (m : GroupMessage), s.groupMessages[k]? = some m → m.groupId = groupId →
    0 ≤ m.timestamp ∧ m.timestamp < 2 ^ 63 - 1

namespace OpenMls
variable (M : OpenMls)

/-- The bytes are an application message that the group can read. -/
def Opens (b : Bytes) (p : M.Provider) (g : M.Group) : Prop :=
  ∃ pm d, M.Reads b pm ∧ M.received pm p g = some (some d)

/-- What holds of application messages: to process one never makes readable another (or the same) that is not. Only a
commit takes the group to an epoch whose messages it could not read before. -/
def ApplicationTraffic (bs : List Bytes) : Prop :=
  ∀ b ∈ bs, ∀ b' ∈ bs, ∀ pm p g, M.Reads b' pm → ¬ M.Opens b p g →
    ¬ M.Opens b (M.receive pm p g).1 (M.receive pm p g).2

end OpenMls

namespace MlsGroupHandler
variable {M : OpenMls}

/-- The handler once it has processed the bytes as an application message of the group; `none` if it cannot. -/
def openGroupMessage (h : MlsGroupHandler M) (groupId : String) (b : Bytes) : Option (MlsGroupHandler M) :=
  match M.deserializeMessage b with
  | .error _ => none
  | .ok msg =>
    match h.processMessage groupId msg with
    | (.ok (some _), h) => some (h.recordProcessingSuccess groupId)
    | _ => none

/-- The messages are readable one after the other. -/
def OpensAll (groupId : String) : MlsGroupHandler M → List GroupMessage → Prop
  | _, [] => True
  | h, m :: ms => m.mlsCiphertext ≠ [] ∧
    ∃ h', h.openGroupMessage groupId m.mlsCiphertext = some h' ∧ OpensAll groupId h' ms

end MlsGroupHandler

namespace Node
variable {M : OpenMls}

/-- What lies beyond the requester's cursor. -/
def beyondCursor (n : Node M) (responder : LocalMessageStorage) (groupId : String) : List GroupMessage :=
  ((scanPrefix (groupId ++ ":") responder.groupMessages).map (·.2)).filter fun m =>
    (n.storage.latestGroupTimestamp groupId).getD 0 < m.timestamp

/-- Nothing is missing up to the requester's cursor. Beyond it no batch of a hundred ends between two messages of one
timestamp, no message has an id that the requester takes for one it holds or gets before, and each is readable when
its turn comes. -/
structure Syncable (n : Node M) (responder : LocalMessageStorage) (groupId : String) : Prop where
  held : ∀ m ∈ responder.groupHistory groupId, m.timestamp ≤ (n.storage.latestGroupTimestamp groupId).getD 0 →
    n.storage.groupMessages[m.key]? = some m
  parted : ∀ k a b, (n.beyondCursor responder groupId)[100 * (k + 1) - 1]? = some a →
    (n.beyondCursor responder groupId)[100 * (k + 1)]? = some b → a.timestamp < b.timestamp
  fresh : ∀ m ∈ n.beyondCursor responder groupId, n.storage.hasGroupMessage groupId m.id = false
  distinct : (n.beyondCursor responder groupId).Pairwise fun a b => ¬ Text.HasSuffix (":" ++ b.id) a.key
  opens : n.mls.OpensAll groupId (n.beyondCursor responder groupId)

end Node
end Variance
