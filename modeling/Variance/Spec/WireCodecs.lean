import Variance.Spec.MessagingProto

/-! `protocols/messaging.rs`: the codecs of the request-response protocols. What prost generates for a message type is
a parameter; what is relied on of it is `Prost.Laws`. -/

namespace Variance
namespace MessagingProto

/-- A message type as prost has it: the fields of a message, each as its bytes, in the order they are written, and
`Message::decode`. -/
structure Prost (α : Type) where
  fields : α → List Bytes
  decode : Bytes → Option α

namespace Prost
variable {α : Type} (P : Prost α)

def encode (m : α) : Bytes := (P.fields m).flatten

/-- A field of the message ends at byte `n`, or the message begins there. -/
def Boundary (m : α) (n : ℕ) : Prop := ∃ k, ((P.fields m).take k).flatten.length = n

/-- A complete encoding is decoded to what was encoded; cut where a field ends it is decoded to something, and cut
inside a field it is not. -/
structure Laws : Prop where
  decode_encode : ∀ m, P.decode (P.encode m) = some m
  decode_cut : ∀ m n, P.Boundary m n → (P.decode ((P.encode m).take n)).isSome
  decode_torn : ∀ m n, n ≤ (P.encode m).length → ¬ P.Boundary m n → P.decode ((P.encode m).take n) = none

end Prost

/-- `MAX_MESSAGE_SIZE`. -/
def maxMessageSize : ℕ := 1024 * 1024

/-- `io.take(MAX_MESSAGE_SIZE).read_to_end`, and `decode`. -/
def readLimited {α : Type} (P : Prost α) (io : Bytes) : Option α := P.decode (io.take maxMessageSize)

/-- `request_response::Codec`. A read that ends in an `io::Error` is `none`. -/
structure RequestResponseCodec (Request Response : Type) where
  readRequest : Bytes → Option Request
  readResponse : Bytes → Option Response
  writeRequest : Request → Bytes
  writeResponse : Response → Bytes

def protobufCodec {Request Response : Type} (P : Prost Request) (Q : Prost Response) :
    RequestResponseCodec Request Response where
  readRequest := readLimited P
  readResponse := readLimited Q
  writeRequest := P.encode
  writeResponse := Q.encode

/-- What prost generates from `messaging.proto`. -/
structure Generated where
  offlineMessageRequest : Prost OfflineMessageRequest
  offlineMessageResponse : Prost OfflineMessageResponse
  directMessage : Prost DirectMessage
  directMessageAck : Prost DirectMessageAck
  typingIndicator : Prost TypingIndicator
  readReceipt : Prost ReadReceipt
  groupSyncRequest : Prost GroupSyncRequest
  groupSyncResponse : Prost GroupSyncResponse

namespace Generated
variable (G : Generated)

structure Laws : Prop where
  offlineMessageRequest : G.offlineMessageRequest.Laws
  offlineMessageResponse : G.offlineMessageResponse.Laws
  directMessage : G.directMessage.Laws
  directMessageAck : G.directMessageAck.Laws
  typingIndicator : G.typingIndicator.Laws
  readReceipt : G.readReceipt.Laws
  groupSyncRequest : G.groupSyncRequest.Laws
  groupSyncResponse : G.groupSyncResponse.Laws

def offlineMessageCodec : RequestResponseCodec OfflineMessageRequest OfflineMessageResponse :=
  protobufCodec G.offlineMessageRequest G.offlineMessageResponse

def directMessageCodec : RequestResponseCodec DirectMessage DirectMessageAck :=
  protobufCodec G.directMessage G.directMessageAck

def typingIndicatorCodec : RequestResponseCodec TypingIndicator TypingIndicator :=
  protobufCodec G.typingIndicator G.typingIndicator

def receiptCodec : RequestResponseCodec ReadReceipt ReadReceipt := protobufCodec G.readReceipt G.readReceipt

def groupSyncCodec : RequestResponseCodec GroupSyncRequest GroupSyncResponse :=
  protobufCodec G.groupSyncRequest G.groupSyncResponse

end Generated

/-- What was written is read back, or, when it is over the limit, refused. -/
def Faithful {α : Type} (read : Bytes → Option α) (write : α → Bytes) (m : α) : Prop :=
  read (write m) = if (write m).length ≤ maxMessageSize then some m else none

/-- The codec is faithful about a request just when `A` has it, and about a response just when `B` has. -/
def RequestResponseCodec.FaithfulIff {Request Response : Type} (c : RequestResponseCodec Request Response)
    (A : Request → Prop) (B : Response → Prop) : Prop :=
  (∀ m, Faithful c.readRequest c.writeRequest m ↔ A m) ∧ (∀ m, Faithful c.readResponse c.writeResponse m ↔ B m)

/-- Every codec is faithful about every message. -/
def Generated.Faithful (G : Generated) : Prop :=
  G.offlineMessageCodec.FaithfulIff (fun _ => True) (fun _ => True) ∧
  G.directMessageCodec.FaithfulIff (fun _ => True) (fun _ => True) ∧
  G.typingIndicatorCodec.FaithfulIff (fun _ => True) (fun _ => True) ∧
  G.receiptCodec.FaithfulIff (fun _ => True) (fun _ => True) ∧
  G.groupSyncCodec.FaithfulIff (fun _ => True) (fun _ => True)

/-- A message within the limit, or of which no field ends at the limit. -/
def Prost.Safe {α : Type} (P : Prost α) (m : α) : Prop :=
  (P.encode m).length ≤ maxMessageSize ∨ ¬ P.Boundary m maxMessageSize

end MessagingProto
end Variance
