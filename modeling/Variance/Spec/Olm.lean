import Variance.Spec.Types

/-! The part of `vodozemac` that the direct-message handler calls, as a parameter. A draw from the
system RNG is an argument; a pickle is the value it was made from. -/

namespace Variance

/-- A `Curve25519PublicKey`: exactly 32 bytes. -/
structure CurveKey where
  bytes : Bytes
  size : bytes.length = 32
deriving DecidableEq

/-- `<[u8; 32]>::try_from`. -/
def CurveKey.ofBytes (b : Bytes) : Option CurveKey :=
  if h : b.length = 32 then some ⟨b, h⟩ else none

inductive OlmMessage (PreKey Normal : Type)
  | preKey (m : PreKey)
  | normal (m : Normal)
deriving DecidableEq

/-- The text is the crate's own. -/
inductive SessionCreationError
  | missingOneTimeKey (text : String)
  | other (text : String)

structure Olm where
  Account : Type
  Session : Type
  PreKey : Type
  Normal : Type
  identityKey : Account → CurveKey
  generateOneTimeKeys : ℕ → ℕ → Account → Account
  /-- The keys not yet marked as published. -/
  oneTimeKeys : Account → List CurveKey
  markKeysAsPublished : Account → Account
  generateFallbackKey : ℕ → Account → Account
  forgetFallbackKey : Account → Account
  createOutboundSession : ℕ → Account → CurveKey → CurveKey → Session
  createInboundSession : Account → CurveKey → PreKey →
    Except SessionCreationError (Session × Bytes) × Account
  encrypt : ℕ → Session → Bytes → OlmMessage PreKey Normal × Session
  decrypt : Session → OlmMessage PreKey Normal → Except String Bytes × Session
  fromParts : ℕ → Bytes → Except String (OlmMessage PreKey Normal)
  toParts : OlmMessage PreKey Normal → ℕ × Bytes

/-- `Olm.Message`: what travels as `(olm_message_type, ciphertext)`. -/
abbrev Olm.Message (O : Olm) := OlmMessage O.PreKey O.Normal

/-! What an ideal Olm promises. -/

/-- Whose key a session is with: the one it was made with, for good. -/
structure PeerKeys (O : Olm) where
  peerKey : O.Session → CurveKey
  outbound : ∀ rng a ik otk, peerKey (O.createOutboundSession rng a ik otk) = ik
  inbound : ∀ {a ik p s b a'}, O.createInboundSession a ik p = (.ok (s, b), a') → peerKey s = ik
  encrypt : ∀ rng s b, peerKey (O.encrypt rng s b).2 = peerKey s
  decrypt : ∀ s m, peerKey (O.decrypt s m).2 = peerKey s

/-- The keys a first message is made with. -/
structure FirstKeys where
  sender : CurveKey
  recipient : CurveKey
  otk : CurveKey
deriving DecidableEq

/-- A one-time key's private part serves exactly one inbound session. `holds a k`: the account has the
private part of `k`. -/
structure OneTimeKeys (O : Olm) where
  holds : O.Account → CurveKey → Prop
  firstKeys : O.PreKey → FirstKeys
  /-- The message is as some session made it. -/
  genuine : O.PreKey → Prop
  plain : O.Message → Bytes
  inbound_ok : ∀ {a p}, genuine p → (firstKeys p).recipient = O.identityKey a → holds a (firstKeys p).otk →
    ∃ s a', O.createInboundSession a (firstKeys p).sender p = (.ok (s, plain (.preKey p)), a')
  inbound_uses : ∀ {a ik p s b a'}, O.createInboundSession a ik p = (.ok (s, b), a') →
    ∀ k, holds a' k ↔ holds a k ∧ k ≠ (firstKeys p).otk
  inbound_fails : ∀ {a ik p e a'}, O.createInboundSession a ik p = (.error e, a') →
    ∀ k, holds a' k ↔ holds a k
  unpublished : ∀ {a k}, k ∈ O.oneTimeKeys a → holds a k
  generate : ∀ {a k} rng n, holds a k → holds (O.generateOneTimeKeys rng n a) k
  marked : ∀ a, O.oneTimeKeys (O.markKeysAsPublished a) = []
  mark : ∀ a k, holds (O.markKeysAsPublished a) k ↔ holds a k
  fallback : ∀ rng a k, holds (O.generateFallbackKey rng a) k ↔ holds a k
  forget : ∀ a k, holds (O.forgetFallbackKey a) k ↔ holds a k

/-- An account keeps its identity. -/
structure SameIdentity (O : Olm) : Prop where
  inbound : ∀ a ik p, O.identityKey (O.createInboundSession a ik p).2 = O.identityKey a
  generate : ∀ rng n a, O.identityKey (O.generateOneTimeKeys rng n a) = O.identityKey a
  mark : ∀ a, O.identityKey (O.markKeysAsPublished a) = O.identityKey a
  fallback : ∀ rng a, O.identityKey (O.generateFallbackKey rng a) = O.identityKey a
  forget : ∀ a, O.identityKey (O.forgetFallbackKey a) = O.identityKey a

/-- The private parts of one-time keys are kept in a store of limited size; once it is full, the oldest give way to
those that are generated. -/
structure KeyStore (O : Olm) where
  holds : O.Account → CurveKey → Prop
  size : O.Account → ℕ
  limit : ℕ
  generate : ∀ {a k} rng n, size a + n ≤ limit → holds a k → holds (O.generateOneTimeKeys rng n a) k
  mark : ∀ {a k}, holds a k → holds (O.markKeysAsPublished a) k
  fallback : ∀ {a k} rng, holds a k → holds (O.generateFallbackKey rng a) k

/-- What the code reads of the crate's two message types survives its own encoding. -/
structure OlmParts (O : Olm) : Prop where
  parts : ∀ m, O.fromParts (O.toParts m).1 (O.toParts m).2 = .ok m
  preKeyType : ∀ p, (O.toParts (.preKey p)).1 = 0
  normalType : ∀ m, (O.toParts (.normal m)).1 = 1

/-- A session decrypts exactly what its peer session encrypted, in any order. `sid` names the pair. -/
structure SessionPairs (O : Olm) extends OneTimeKeys O where
  sid : O.Session → ℕ
  initiator : O.Session → Bool
  /-- Nothing has been decrypted in the session yet. -/
  fresh : O.Session → Bool
  keys : O.Session → FirstKeys
  msgSid : O.Message → ℕ
  fromInitiator : O.Message → Bool
  outbound : ∀ rng a ik k, initiator (O.createOutboundSession rng a ik k) = true ∧
    fresh (O.createOutboundSession rng a ik k) = true ∧
    keys (O.createOutboundSession rng a ik k) = ⟨O.identityKey a, ik, k⟩
  encrypt_keeps : ∀ rng s b, sid (O.encrypt rng s b).2 = sid s ∧
    initiator (O.encrypt rng s b).2 = initiator s ∧ fresh (O.encrypt rng s b).2 = fresh s ∧
    keys (O.encrypt rng s b).2 = keys s
  encrypt_msg : ∀ rng s b, msgSid (O.encrypt rng s b).1 = sid s ∧
    fromInitiator (O.encrypt rng s b).1 = initiator s ∧ plain (O.encrypt rng s b).1 = b
  encrypt_first : ∀ rng s b, initiator s = true → fresh s = true →
    ∃ p, (O.encrypt rng s b).1 = .preKey p ∧ genuine p ∧ firstKeys p = keys s
  decrypt_ok : ∀ {s m}, msgSid m = sid s → fromInitiator m ≠ initiator s →
    (O.decrypt s m).1 = .ok (plain m)
  decrypt_error : ∀ {s m}, ¬ (msgSid m = sid s ∧ fromInitiator m ≠ initiator s) →
    ∃ e, O.decrypt s m = (.error e, s)
  decrypt_keeps : ∀ s m, sid (O.decrypt s m).2 = sid s ∧ initiator (O.decrypt s m).2 = initiator s
  inbound_pairs : ∀ {a ik p s b a'}, O.createInboundSession a ik p = (.ok (s, b), a') →
    sid s = msgSid (.preKey p) ∧ initiator s = false

end Variance
