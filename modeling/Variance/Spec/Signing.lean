import Variance.Spec.Receipts
import Variance.Spec.Signaling

/-! What the signatures of direct messages (`direct.rs`), receipts (`receipts.rs`) and signaling messages
(`signaling.rs`) cover, and how they are verified. -/

namespace Variance

/-- What fits in an `i32`, and in an `i64`. -/
def IsI32 (z : ℤ) : Prop := -2 ^ 31 ≤ z ∧ z < 2 ^ 31
def IsI64 (z : ℤ) : Prop := -2 ^ 63 ≤ z ∧ z < 2 ^ 63

instance (z : ℤ) : Decidable (IsI32 z) := inferInstanceAs (Decidable (_ ∧ _))
instance (z : ℤ) : Decidable (IsI64 z) := inferInstanceAs (Decidable (_ ∧ _))

/-- No signature verifies for two strings of bytes. -/
def Ed25519.Unforgeable (E : Ed25519) : Prop :=
  ∀ key a b s, E.verify key a s = true → E.verify key b s = true → a = b

/-! Direct messages -/

namespace DirectMessage

/-- Its numbers are such as the wire carries. -/
structure Typed (m : DirectMessage) : Prop where
  olmMessageType : m.olmMessageType < 2 ^ 32
  timestamp : IsI64 m.timestamp

/-- `verify_message_with_key`. -/
def verifyWithKey (E : Ed25519) (m : DirectMessage) (senderPublicKey : Bytes) : Bool :=
  m.signature.length = 64 && E.verify senderPublicKey (signableBytes m) m.signature

def withSignature (m : DirectMessage) (s : Bytes) : DirectMessage := { m with signature := s }

/-- Two messages that differ in more than their signatures are signed over different bytes, and no signature is
accepted for both. -/
def Apart (m m' : DirectMessage) : Prop :=
  m.withSignature [] ≠ m'.withSignature [] → signableBytes m ≠ signableBytes m' ∧
    ∀ E : Ed25519, E.Unforgeable → ∀ key s, (m.withSignature s).verifyWithKey E key = true →
      (m'.withSignature s).verifyWithKey E key = false

/-- The signed fields of variable length, one after the other. -/
def text (m : DirectMessage) : Bytes :=
  utf8Bytes m.id ++ utf8Bytes m.senderDid ++ utf8Bytes m.recipientDid ++ m.ciphertext

/-- What is signed is the same, field by field. -/
structure SameSigned (m m' : DirectMessage) : Prop where
  id : m.id = m'.id
  senderDid : m.senderDid = m'.senderDid
  recipientDid : m.recipientDid = m'.recipientDid
  ciphertext : m.ciphertext = m'.ciphertext
  olmMessageType : m.olmMessageType = m'.olmMessageType
  timestamp : m.timestamp = m'.timestamp

/-- The texts end at the same places. -/
structure SameLengths (m m' : DirectMessage) : Prop where
  id : (utf8Bytes m.id).length = (utf8Bytes m'.id).length
  senderDid : (utf8Bytes m.senderDid).length = (utf8Bytes m'.senderDid).length
  recipientDid : (utf8Bytes m.recipientDid).length = (utf8Bytes m'.recipientDid).length

end DirectMessage

/-! Receipts -/

/-- What `sign_group_receipt` and `verify_group_receipt_with_key` put together. -/
def GroupReadReceipt.payload (r : GroupReadReceipt) : Bytes :=
  utf8Bytes r.messageId ++ utf8Bytes r.groupId ++ utf8Bytes r.readerDid ++ leBytes 4 (r.status % 2 ^ 32).toNat ++
    leBytes 8 (r.timestamp % 2 ^ 64).toNat

/-- `verify_group_receipt_with_key`. -/
def GroupReadReceipt.verifyWithKey (E : Ed25519) (r : GroupReadReceipt) (readerPublicKey : Bytes) : Bool :=
  r.signature.length = 64 && E.verify readerPublicKey r.payload r.signature

/-- The two kinds of receipts, which a reader signs with one key. -/
inductive SignedReceipt
  | direct (r : ReadReceipt)
  | group (r : GroupReadReceipt)
deriving DecidableEq

namespace SignedReceipt

def payload : SignedReceipt → Bytes
  | direct r => r.payload
  | group r => r.payload

def verifyWithKey (E : Ed25519) : SignedReceipt → Bytes → Bool
  | direct r => r.verifyWithKey E
  | group r => r.verifyWithKey E

def withSignature : SignedReceipt → Bytes → SignedReceipt
  | direct r, s => direct { r with signature := s }
  | group r, s => group { r with signature := s }

/-- The fields of text, in the order in which they are signed. -/
def texts : SignedReceipt → List String
  | direct r => [r.messageId, r.readerDid]
  | group r => [r.messageId, r.groupId, r.readerDid]

def status : SignedReceipt → ℤ
  | direct r => r.status
  | group r => r.status

def timestamp : SignedReceipt → ℤ
  | direct r => r.timestamp
  | group r => r.timestamp

structure Typed (r : SignedReceipt) : Prop where
  status : IsI32 r.status
  timestamp : IsI64 r.timestamp

/-- Receipts of different kinds, or with a different field besides the signature, are signed over different bytes, and
no signature is accepted for both. -/
def Apart (r r' : SignedReceipt) : Prop :=
  r.withSignature [] ≠ r'.withSignature [] → r.payload ≠ r'.payload ∧
    ∀ E : Ed25519, E.Unforgeable → ∀ key s, (r.withSignature s).verifyWithKey E key = true →
      (r'.withSignature s).verifyWithKey E key = false

/-- With one status and timestamp, the same text cut into different fields. -/
structure Recut (r r' : SignedReceipt) : Prop where
  texts : r.texts ≠ r'.texts
  joined : String.join r.texts = String.join r'.texts
  status : r.status = r'.status
  timestamp : r.timestamp = r'.timestamp

end SignedReceipt

/-! Signaling messages -/

/-- Contents that are signed as one. Only an ICE candidate and a control message have fields that are not signed,
or run into each other. -/
def SignalingContent.SignedAs : SignalingContent → SignalingContent → Prop
  | .iceCandidate candidate sdpMid _, .iceCandidate candidate' sdpMid' _ => candidate ++ sdpMid = candidate' ++ sdpMid'
  | .control type _, .control type' _ => type = type'
  | content, content' => content = content'

def SignalingContent.Typed : SignalingContent → Prop
  | .offer _ callType => IsI32 callType
  | .control type _ => IsI32 type
  | _ => True

namespace SignalingMessage

/-- Numbers such as the wire carries, and the nonce that `verify_message` asks for. -/
structure Typed (m : SignalingMessage) : Prop where
  timestamp : IsI64 m.timestamp
  nonce : m.nonce.length = 16
  content : ∀ content, m.message = some content → content.Typed

def withSignature (m : SignalingMessage) (s : Bytes) : SignalingMessage := { m with signature := s }

/-- Two messages that differ in more than their signatures are signed over different bytes, and no signature is
accepted for both. -/
def Apart (m m' : SignalingMessage) : Prop :=
  m.withSignature [] ≠ m'.withSignature [] → m.payload ≠ m'.payload ∧
    ∀ E : Ed25519, E.Unforgeable → ∀ key s (h h' : MediaHandler),
      (h.verifyMessage E (m.withSignature s) key).1 = .ok () →
      (h'.verifyMessage E (m'.withSignature s) key).1 ≠ .ok ()

/-- The texts that come first. -/
def text (m : SignalingMessage) : String := m.callId ++ m.senderDid ++ m.recipientDid

/-- What follows them: timestamp, nonce and content. -/
def tail (m : SignalingMessage) : Bytes :=
  leBytes 8 (m.timestamp % 2 ^ 64).toNat ++ m.nonce ++ (m.message.map (·.payload)).getD []

/-- Signed as one with the same text in front: the text cut into different fields, or contents signed as one. -/
structure Recut (m m' : SignalingMessage) : Prop where
  differ : m.withSignature [] ≠ m'.withSignature []
  text : m.text = m'.text
  timestamp : m.timestamp = m'.timestamp
  nonce : m.nonce = m'.nonce
  message : Option.Rel SignalingContent.SignedAs m.message m'.message

/-- Signed as one although the first has less text in front: what the second has more is the beginning of what follows
the first's. -/
def Slid (m m' : SignalingMessage) : Prop :=
  ∃ more, more ≠ [] ∧ utf8Bytes m'.text = utf8Bytes m.text ++ more ∧ m.tail = more ++ m'.tail

end SignalingMessage
end Variance

/-! Numbers of fixed width and UTF-8 text as bytes: what can be read back of them. -/

namespace Variance

theorem length_leBytes (k n : ℕ) : (leBytes k n).length = k := by
  induction k generalizing n with
  | zero => rfl
  | succ k ih => simp [leBytes, ih]

theorem leBytes_inj {k n m : ℕ} (hn : n < 256 ^ k) (hm : m < 256 ^ k) (h : leBytes k n = leBytes k m) : n = m := by
  induction k generalizing n m with
  | zero => omega
  | succ k ih =>
    obtain ⟨hlow, hhigh⟩ := List.cons.inj h
    have hmod : n % 256 = m % 256 := by simpa using congrArg UInt8.toNat hlow
    have hdiv : n / 256 = m / 256 := ih (by omega) (by omega) hhigh
    omega

theorem leBytes_i32 {a b : ℤ} (ha : IsI32 a) (hb : IsI32 b)
    (h : leBytes 4 (a % 2 ^ 32).toNat = leBytes 4 (b % 2 ^ 32).toNat) : a = b := by
  have := leBytes_inj (by omega) (by omega) h
  unfold IsI32 at ha hb
  omega

theorem leBytes_i64 {a b : ℤ} (ha : IsI64 a) (hb : IsI64 b)
    (h : leBytes 8 (a % 2 ^ 64).toNat = leBytes 8 (b % 2 ^ 64).toNat) : a = b := by
  have := leBytes_inj (by omega) (by omega) h
  unfold IsI64 at ha hb
  omega

theorem toList_loop (b : ByteArray) (i : ℕ) (r : List UInt8) :
    ByteArray.toList.loop b i r = r.reverse ++ b.data.toList.drop i := by
  induction i, r using ByteArray.toList.loop.induct b with
  | case1 i r hi ih =>
    have hget : b.data.toList.drop i = b.get! i :: b.data.toList.drop (i + 1) := by
      rw [List.drop_eq_getElem_cons (by simpa using hi)]
      simp [ByteArray.get!, getElem!_pos b.data i (by simpa using hi)]
    rw [ByteArray.toList.loop, if_pos hi, ih, hget]
    simp
  | case2 i r hi =>
    rw [ByteArray.toList.loop, if_neg hi, List.drop_eq_nil_of_le (by simpa using hi)]
    simp

theorem utf8Bytes_eq (s : String) : utf8Bytes s = s.toByteArray.data.toList := toList_loop _ 0 []

theorem utf8Bytes_append (s t : String) : utf8Bytes (s ++ t) = utf8Bytes s ++ utf8Bytes t := by
  simp only [utf8Bytes_eq, String.toByteArray_append]
  exact ByteArray.toList_data_append

theorem utf8Bytes_inj {s t : String} : utf8Bytes s = utf8Bytes t ↔ s = t := by
  rw [utf8Bytes_eq, utf8Bytes_eq, Array.toList_inj, ← ByteArray.ext_iff, String.toByteArray_inj]

end Variance
