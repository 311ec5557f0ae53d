import Variance.Spec.Relay
import Variance.Spec.Sync
import Variance.Spec.WireCodecs

/-! How many bytes the answers to an offline request and to a group sync request take. Prost writes the wire format of
`messaging.proto`; how far a page reaches is counted in messages alone. -/

namespace Variance

open MessagingProto

def DirectMessage.toProto (m : DirectMessage) : MessagingProto.DirectMessage where
  id := m.id
  senderDid := m.senderDid
  recipientDid := m.recipientDid
  ciphertext := m.ciphertext
  olmMessageType := .ofNat m.olmMessageType
  signature := m.signature
  timestamp := .ofInt m.timestamp
  type := .ofInt m.type
  replyTo := m.replyTo
  senderIdentityKey := m.senderIdentityKey

def GroupMessage.toProto (m : GroupMessage) : MessagingProto.GroupMessage where
  id := m.id
  senderDid := m.senderDid
  groupId := m.groupId
  timestamp := .ofInt m.timestamp
  type := .ofInt m.type
  replyTo := m.replyTo
  mlsCiphertext := m.mlsCiphertext

def OfflineMessageEnvelope.toProto (e : OfflineMessageEnvelope) : MessagingProto.OfflineMessageEnvelope where
  mailboxToken := e.mailboxToken
  message := e.message.map fun
    | .direct m => .inl m.toProto
    | .group m => .inr m.toProto
  storedAt := .ofInt e.storedAt
  expiresAt := .ofInt e.expiresAt

def OfflineMessageResponse.toProto (r : OfflineMessageResponse) : MessagingProto.OfflineMessageResponse where
  messages := r.messages.map (·.toProto)
  hasMore := r.hasMore
  nextCursor := r.nextCursor.map .ofInt
  errorCode := none
  errorMessage := none

def GroupSyncResponse.toProto (r : GroupSyncResponse) : MessagingProto.GroupSyncResponse where
  messages := r.messages.map (·.toProto)
  hasMore := r.hasMore
  errorCode := r.errorCode
  errorMessage := r.errorMessage

/-- Prost writes the two responses in the protobuf wire format. -/
structure MessagingProto.Generated.WireFormat (G : Generated) : Prop where
  offlineMessageResponse : ∀ r, G.offlineMessageResponse.encode r = OfflineMessageResponse.schema.encode r
  groupSyncResponse : ∀ r, G.groupSyncResponse.encode r = GroupSyncResponse.schema.encode r

/-- The requester's codec takes the answer in whole, and there is a message in it when one is to be had. -/
def RelayStore.Deliverable (s : RelayStore) (G : Generated) (request : OfflineMessageRequest) : Prop :=
  ∀ r, s.fetchMessages request = .ok r → (G.offlineMessageResponse.encode r.toProto).length ≤ maxMessageSize ∧
    (s.laterThan request.mailboxToken request.sinceTimestamp ≠ [] → r.messages ≠ [])

def LocalMessageStorage.Deliverable (s : LocalMessageStorage) (G : Generated) (groupId : String) (since : ℤ)
    (limit : ℕ) : Prop :=
  (G.groupSyncResponse.encode (s.serveSync groupId since limit).toProto).length ≤ maxMessageSize ∧
    (s.range groupId since ≠ [] → (s.serveSync groupId since limit).messages ≠ [])

/-- A message of `n` bytes inside another, with its key and its length. -/
def nestedLength (n : ℕ) : ℕ := 1 + (Protobuf.varint n).length + n

def int64Length (n : ℤ) : ℕ := 1 + (Protobuf.varint (Int64.ofInt n).toUInt64.toNat).length

namespace RelayStore
variable (s : RelayStore) (request : OfflineMessageRequest)

/-- The envelopes that a request reaches; at the limit's greatest value that is one. -/
def page : List OfflineMessageEnvelope :=
  (s.laterThan request.mailboxToken request.sinceTimestamp).take
    (if request.limit + 1 = 0 then 1 else request.limit.toNat)

def beyondPage : Prop :=
  request.limit + 1 ≠ 0 ∧ request.limit.toNat < (s.laterThan request.mailboxToken request.sinceTimestamp).length

instance : Decidable (s.beyondPage request) := inferInstanceAs (Decidable (_ ∧ _))

/-- The stored envelopes that the request reaches, with what is said of the rest, go into one message. -/
def PageFits : Prop :=
  ((s.page request).map fun e => nestedLength (OfflineMessageEnvelope.schema.encode e.toProto).length).sum +
    (if s.beyondPage request then 2 else 0) + ((s.page request).getLast?.elim 0 fun e => int64Length e.storedAt) ≤
    maxMessageSize

end RelayStore

namespace LocalMessageStorage
variable (s : LocalMessageStorage) (groupId : String) (since : ℤ) (limit : ℕ)

def page : List GroupMessage := (s.range groupId since).take (effectiveLimit limit)

def PageFits : Prop :=
  ((s.page groupId since limit).map fun m => nestedLength (GroupMessage.schema.encode m.toProto).length).sum +
    (if (s.page groupId since limit).length = effectiveLimit limit then 2 else 0) ≤ maxMessageSize

end LocalMessageStorage
end Variance
