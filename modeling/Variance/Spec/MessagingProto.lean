import Variance.Lib.ProtoSchema
import Variance.Spec.Types

/-! `messaging.proto`: the messages of the request-response protocols as they travel, with the widths that the schema
gives them. -/

namespace Variance
namespace MessagingProto

open Protobuf Protobuf.Schema

structure DirectMessage where
  id : String
  senderDid : Did
  recipientDid : Did
  ciphertext : Bytes
  olmMessageType : UInt32
  signature : Bytes
  timestamp : Int64
  type : Int32
  replyTo : Option String
  senderIdentityKey : Option Bytes

def DirectMessage.schema : Schema DirectMessage :=
  (prod (singular 1 .string "") <| prod (singular 2 .string "") <| prod (singular 3 .string "") <|
    prod (singular 4 .bytes []) <| prod (singular 5 .uint32 0) <| prod (singular 6 .bytes []) <|
    prod (singular 7 .int64 0) <| prod (singular 8 .enum 0) <| prod (optional 9 .string) (optional 10 .bytes)).map
  { toFun := fun (id, sender, recipient, ciphertext, olmType, signature, timestamp, type, replyTo, key) =>
      ⟨id, sender, recipient, ciphertext, olmType, signature, timestamp, type, replyTo, key⟩
    invFun := fun m => (m.id, m.senderDid, m.recipientDid, m.ciphertext, m.olmMessageType, m.signature, m.timestamp,
      m.type, m.replyTo, m.senderIdentityKey)
    left_inv := fun _ => rfl
    right_inv := fun _ => rfl }

structure GroupMessage where
  id : String
  senderDid : Did
  groupId : String
  timestamp : Int64
  type : Int32
  replyTo : Option String
  mlsCiphertext : Bytes

def GroupMessage.schema : Schema GroupMessage :=
  (prod (singular 1 .string "") <| prod (singular 2 .string "") <| prod (singular 3 .string "") <|
    prod (singular 7 .int64 0) <| prod (singular 8 .enum 0) <| prod (optional 9 .string) (singular 11 .bytes [])).map
  { toFun := fun (id, sender, group, timestamp, type, replyTo, ciphertext) =>
      ⟨id, sender, group, timestamp, type, replyTo, ciphertext⟩
    invFun := fun m => (m.id, m.senderDid, m.groupId, m.timestamp, m.type, m.replyTo, m.mlsCiphertext)
    left_inv := fun _ => rfl
    right_inv := fun _ => rfl }

structure DirectMessageAck where
  messageId : String
  error : Option String

def DirectMessageAck.schema : Schema DirectMessageAck :=
  (prod (singular 1 .string "") (optional 2 .string)).map
  { toFun := fun (messageId, error) => ⟨messageId, error⟩
    invFun := fun m => (m.messageId, m.error)
    left_inv := fun _ => rfl
    right_inv := fun _ => rfl }

structure OfflineMessageEnvelope where
  mailboxToken : Bytes
  message : Option (DirectMessage ⊕ GroupMessage)
  storedAt : Int64
  expiresAt : Int64

def OfflineMessageEnvelope.schema : Schema OfflineMessageEnvelope :=
  (prod (singular 1 .bytes []) <| prod (oneof 2 3 DirectMessage.schema.scalar GroupMessage.schema.scalar) <|
    prod (singular 5 .int64 0) (singular 6 .int64 0)).map
  { toFun := fun (token, message, storedAt, expiresAt) => ⟨token, message, storedAt, expiresAt⟩
    invFun := fun m => (m.mailboxToken, m.message, m.storedAt, m.expiresAt)
    left_inv := fun _ => rfl
    right_inv := fun _ => rfl }

structure OfflineMessageRequest where
  mailboxToken : Bytes
  sinceTimestamp : Option Int64
  limit : UInt32
  verifyingKey : Bytes
  authSignature : Bytes
  authTimestamp : Int64

def OfflineMessageRequest.schema : Schema OfflineMessageRequest :=
  (prod (singular 1 .bytes []) <| prod (optional 2 .int64) <| prod (singular 3 .uint32 0) <|
    prod (singular 4 .bytes []) <| prod (singular 5 .bytes []) (singular 6 .int64 0)).map
  { toFun := fun (token, since, limit, key, signature, timestamp) => ⟨token, since, limit, key, signature, timestamp⟩
    invFun := fun m => (m.mailboxToken, m.sinceTimestamp, m.limit, m.verifyingKey, m.authSignature, m.authTimestamp)
    left_inv := fun _ => rfl
    right_inv := fun _ => rfl }

structure OfflineMessageResponse where
  messages : List OfflineMessageEnvelope
  hasMore : Bool
  nextCursor : Option Int64
  errorCode : Option String
  errorMessage : Option String

def OfflineMessageResponse.schema : Schema OfflineMessageResponse :=
  (prod (repeated 1 OfflineMessageEnvelope.schema.scalar) <| prod (singular 2 .bool false) <|
    prod (optional 3 .int64) <| prod (optional 4 .string) (optional 5 .string)).map
  { toFun := fun (messages, hasMore, nextCursor, code, message) => ⟨messages, hasMore, nextCursor, code, message⟩
    invFun := fun m => (m.messages, m.hasMore, m.nextCursor, m.errorCode, m.errorMessage)
    left_inv := fun _ => rfl
    right_inv := fun _ => rfl }

structure TypingIndicator where
  senderDid : Did
  /-- A recipient, or a group. -/
  recipient : Option (Did ⊕ String)
  isTyping : Bool
  timestamp : Int64

def TypingIndicator.schema : Schema TypingIndicator :=
  (prod (singular 1 .string "") <| prod (oneof 2 3 .string .string) <|
    prod (singular 4 .bool false) (singular 5 .int64 0)).map
  { toFun := fun (sender, recipient, isTyping, timestamp) => ⟨sender, recipient, isTyping, timestamp⟩
    invFun := fun m => (m.senderDid, m.recipient, m.isTyping, m.timestamp)
    left_inv := fun _ => rfl
    right_inv := fun _ => rfl }

structure ReadReceipt where
  messageId : String
  readerDid : Did
  status : Int32
  timestamp : Int64
  signature : Bytes

def ReadReceipt.schema : Schema ReadReceipt :=
  (prod (singular 1 .string "") <| prod (singular 2 .string "") <| prod (singular 3 .enum 0) <|
    prod (singular 4 .int64 0) (singular 5 .bytes [])).map
  { toFun := fun (messageId, reader, status, timestamp, signature) => ⟨messageId, reader, status, timestamp, signature⟩
    invFun := fun m => (m.messageId, m.readerDid, m.status, m.timestamp, m.signature)
    left_inv := fun _ => rfl
    right_inv := fun _ => rfl }

structure GroupSyncRequest where
  groupId : String
  requesterDid : Did
  sinceTimestamp : Int64
  limit : UInt32

def GroupSyncRequest.schema : Schema GroupSyncRequest :=
  (prod (singular 1 .string "") <| prod (singular 2 .string "") <|
    prod (singular 3 .int64 0) (singular 4 .uint32 0)).map
  { toFun := fun (groupId, requester, since, limit) => ⟨groupId, requester, since, limit⟩
    invFun := fun m => (m.groupId, m.requesterDid, m.sinceTimestamp, m.limit)
    left_inv := fun _ => rfl
    right_inv := fun _ => rfl }

structure GroupSyncResponse where
  messages : List GroupMessage
  hasMore : Bool
  errorCode : Option String
  errorMessage : Option String

def GroupSyncResponse.schema : Schema GroupSyncResponse :=
  (prod (repeated 1 GroupMessage.schema.scalar) <| prod (singular 2 .bool false) <|
    prod (optional 3 .string) (optional 4 .string)).map
  { toFun := fun (messages, hasMore, code, message) => ⟨messages, hasMore, code, message⟩
    invFun := fun m => (m.messages, m.hasMore, m.errorCode, m.errorMessage)
    left_inv := fun _ => rfl
    right_inv := fun _ => rfl }

end MessagingProto
end Variance
