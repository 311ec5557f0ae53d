import Mathlib.Data.String.Basic
import Mathlib.Data.Int.Basic
import Std.Data.ExtTreeMap

/-! The wire types of `messaging.proto` that the node's logic reads, and the
error types with their texts. A `sled` tree is a sorted map from key strings. -/

namespace Variance

abbrev Did := String
abbrev PeerId := String
abbrev Bytes := List UInt8

/-- A `sled` tree, iterated in key order. -/
abbrev SledTree (β : Type) := Std.ExtTreeMap String β

/-- `GroupRole` as it stands on the wire, an open `i32`. -/
abbrev GroupRole := ℤ

def GroupRole.member : GroupRole := 1
def GroupRole.moderator : GroupRole := 2
def GroupRole.admin : GroupRole := 3

structure GroupMember where
  did : Did
  role : GroupRole
  joinedAt : ℤ
  nickname : Option String
deriving DecidableEq

/-- The stored group metadata, `Group` of the proto. -/
structure Group where
  id : String
  name : String
  adminDid : Did
  members : List GroupMember
  createdAt : ℤ
  avatarCid : Option String
  description : Option String
  frozen : Bool
deriving DecidableEq

structure Attachment where
  type : ℤ
  cid : String
  name : String
  size : ℕ
  mimeType : String
  thumbnailCid : Option String
deriving DecidableEq

structure MessageContent where
  text : String
  attachments : List Attachment
  mentions : List Did
  replyTo : Option String
  metadata : SledTree String
deriving DecidableEq

/-- A control message carries its meaning in `metadata` and nothing else. -/
def MessageContent.control (metadata : List (String × String)) : MessageContent :=
  { text := "", attachments := [], mentions := [], replyTo := none,
    metadata := .ofList metadata }

structure DirectMessage where
  id : String
  senderDid : Did
  recipientDid : Did
  ciphertext : Bytes
  olmMessageType : ℕ
  signature : Bytes
  timestamp : ℤ
  type : ℤ
  replyTo : Option String
  senderIdentityKey : Option Bytes
deriving DecidableEq

structure GroupMessage where
  id : String
  senderDid : Did
  groupId : String
  timestamp : ℤ
  type : ℤ
  replyTo : Option String
  mlsCiphertext : Bytes
deriving DecidableEq

/-- `ReceiptStatus` on the wire. -/
def receiptDelivered : ℤ := 1
def receiptRead : ℤ := 2

structure GroupReadReceipt where
  messageId : String
  groupId : String
  readerDid : Did
  status : ℤ
  timestamp : ℤ
  signature : Bytes
deriving DecidableEq

/-- The `oneof` inside `GroupPayload`. -/
inductive GroupPayload
  | message (content : MessageContent)
  | receipt (receipt : GroupReadReceipt)
deriving DecidableEq

structure GroupInvitation where
  groupId : String
  groupName : String
  inviterDid : Did
  inviteeDid : Did
  timestamp : ℤ
  members : List GroupMember
  mlsWelcome : Bytes
  mlsCommit : Bytes
deriving DecidableEq

/-- `variance_messaging::Error`, the variants the modelled functions return. -/
inductive MsgError
  | encryption (message : String)
  | decryption (message : String)
  | groupNotFound (groupId : String)
  | invalidFormat (message : String)
  | storage
  | serialization
  | protocol
  | crypto (message : String)
  | doubleRatchet (message : String)
  | staleOneTimeKey (message : String)
  | mlsGroup (message : String)
  | mlsWelcome (message : String)
  | mlsKeyPackage (message : String)
  | mlsCommit (message : String)
  | mlsPendingCommit
  | mlsNoPendingCommit (groupId : String)
  | messageExpired (messageId : String)
  | relayStorageFull
deriving DecidableEq

/-- The `display` strings. -/
def MsgError.display : MsgError → String
  | .encryption m => "Failed to encrypt message: " ++ m
  | .decryption m => "Failed to decrypt message: " ++ m
  | .groupNotFound g => "Group not found: " ++ g
  | .invalidFormat m => "Invalid message format: " ++ m
  | .storage => "Storage error: "
  | .serialization => "Serialization error: "
  | .protocol => "Protocol error: "
  | .crypto m => "Crypto error: " ++ m
  | .doubleRatchet m => "Double Ratchet error: " ++ m
  | .staleOneTimeKey m => "One-time pre-key was already consumed or invalid: " ++ m
  | .mlsGroup m => "MLS group error: " ++ m
  | .mlsWelcome m => "MLS welcome error: " ++ m
  | .mlsKeyPackage m => "MLS key package error: " ++ m
  | .mlsCommit m => "MLS commit error: " ++ m
  | .mlsPendingCommit =>
    "MLS group has a pending commit — cannot perform other operations until the invite is " ++
      "accepted, declined, or times out"
  | .mlsNoPendingCommit g => "No pending commit to confirm or cancel for group " ++ g
  | .messageExpired m => "Message expired: " ++ m
  | .relayStorageFull => "Relay storage full"

/-- `variance_app::Error`. -/
inductive AppError
  | badRequest (message : String)
  | notFound (message : String)
  | forbidden (message : String)
  | sessionRequired (message : String)
  | app (message : String)
deriving DecidableEq

/-- `.map_err(|e| Error::App { message: format!("{ctx}: {e}") })`. -/
def AppError.wrap (ctx : String) (e : MsgError) : AppError := .app (ctx ++ ": " ++ e.display)

section SledTree
variable {β : Type} (t : SledTree β) (k a : String) (v : β)

@[simp] theorem get_insert : (t.insert k v)[a]? = if k = a then some v else t[a]? := by
  simp [Std.ExtTreeMap.getElem?_insert]

@[simp] theorem get_erase : (t.erase k)[a]? = if k = a then none else t[a]? := by
  simp [Std.ExtTreeMap.getElem?_erase]

theorem mem_iter {e : String × β} : e ∈ t.toList ↔ t[e.1]? = some e.2 :=
  Std.ExtTreeMap.mem_toList_iff_getElem?_eq_some

end SledTree

end Variance
