import Variance.Lib.Codec
import Variance.Spec.Olm

/-! An Olm with nothing but its bookkeeping: a session is named by the draw that made it and its side, a
message names the session it was encrypted in, and a one-time key is its own private part. -/

namespace Variance
namespace IdealOlm

structure Account where
  identity : CurveKey
  privates : List CurveKey
  unpublished : List CurveKey
  fallbacks : List CurveKey
deriving DecidableEq

structure Session where
  sid : ℕ
  initiator : Bool
  fresh : Bool
  peer : CurveKey
  keys : FirstKeys
deriving DecidableEq

structure PreKey where
  sid : ℕ
  keys : FirstKeys
  payload : Bytes
deriving DecidableEq

structure Normal where
  sid : ℕ
  fromInitiator : Bool
  payload : Bytes
deriving DecidableEq

/-- The key with this number. -/
def key (n : ℕ) : CurveKey :=
  ⟨UInt8.ofNat n :: UInt8.ofNat (n / 256) :: List.replicate 30 0, by simp⟩

def keyCodec : Codec CurveKey :=
  (Codec.list .byte).map CurveKey.bytes (fun b => (CurveKey.ofBytes b).getD (key 0)) fun k => by
    simp [CurveKey.ofBytes, k.size]

def preKeyCodec : Codec PreKey :=
  (Codec.prod .nat (.prod keyCodec (.prod keyCodec (.prod keyCodec (.list .byte))))).map
    (fun p => (p.sid, p.keys.sender, p.keys.recipient, p.keys.otk, p.payload))
    (fun x => ⟨x.1, ⟨x.2.1, x.2.2.1, x.2.2.2.1⟩, x.2.2.2.2⟩) fun _ => rfl

def normalCodec : Codec Normal :=
  (Codec.prod .nat (.prod .bool (.list .byte))).map
    (fun p => (p.sid, p.fromInitiator, p.payload)) (fun x => ⟨x.1, x.2.1, x.2.2⟩) fun _ => rfl

def Session.decrypt (s : Session) : OlmMessage PreKey Normal → Except String Bytes
  | .preKey p => if p.sid = s.sid ∧ s.initiator = false then .ok p.payload else .error "Bad MAC"
  | .normal n =>
    if n.sid = s.sid ∧ n.fromInitiator ≠ s.initiator then .ok n.payload else .error "Bad MAC"

/-- A one-time key goes with its use, a fallback key stays. -/
def Account.openInbound (a : Account) (ik : CurveKey) (p : PreKey) :
    Except SessionCreationError (Session × Bytes) × Account :=
  if p.keys.sender ≠ ik then
    (.error (.other "The given identity key doesn't match the one in the message"), a)
  else if p.keys.recipient ≠ a.identity then (.error (.other "Bad MAC"), a)
  else if p.keys.otk ∈ a.privates then
    (.ok (⟨p.sid, false, false, ik, p.keys⟩, p.payload),
      { a with privates := a.privates.filter fun k => k ≠ p.keys.otk })
  else if p.keys.otk ∈ a.fallbacks then (.ok (⟨p.sid, false, false, ik, p.keys⟩, p.payload), a)
  else (.error (.missingOneTimeKey "The pre-key message contained an unknown one-time key"), a)

/-- The keys drawn with this number. -/
def drawn (rng n : ℕ) : List CurveKey := (List.range n).map fun i => key (rng + i)

def toParts : OlmMessage PreKey Normal → ℕ × Bytes
  | .preKey p => (0, preKeyCodec.enc p)
  | .normal n => (1, normalCodec.enc n)

def fromParts (t : ℕ) (b : Bytes) : Except String (OlmMessage PreKey Normal) :=
  if t = 0 then (preKeyCodec.decode b).elim (.error "truncated") fun p => .ok (.preKey p)
  else if t = 1 then (normalCodec.decode b).elim (.error "truncated") fun n => .ok (.normal n)
  else .error "unknown message type"

theorem fromParts_toParts (m : OlmMessage PreKey Normal) :
    fromParts (toParts m).1 (toParts m).2 = .ok m := by
  cases m <;> simp [fromParts, toParts]

section
variable {a a' : Account} {ik : CurveKey} {p : PreKey} {s : Session} {b : Bytes}

theorem openInbound_ok (h : a.openInbound ik p = (.ok (s, b), a')) :
    s.sid = p.sid ∧ s.initiator = false ∧ s.peer = ik ∧
      ∀ k, k ∈ a'.privates ↔ k ∈ a.privates ∧ k ≠ p.keys.otk := by
  unfold Account.openInbound at h
  split_ifs at h with _ _ hp hf
  · cases h
  · cases h
  · cases h
    simp
  · cases h
    refine ⟨rfl, rfl, rfl, fun k => ⟨fun hk => ⟨hk, ?_⟩, And.left⟩⟩
    rintro rfl
    exact hp hk
  · cases h

theorem openInbound_error {e : SessionCreationError} (h : a.openInbound ik p = (.error e, a')) : a' = a := by
  unfold Account.openInbound at h
  split_ifs at h <;> cases h <;> rfl

theorem openInbound_identity : (a.openInbound ik p).2.identity = a.identity := by
  unfold Account.openInbound
  split_ifs <;> rfl

theorem decrypt_iff {m : OlmMessage PreKey Normal} : (∃ b, s.decrypt m = .ok b) ↔
    match m with
    | .preKey p => p.sid = s.sid ∧ s.initiator = false
    | .normal n => n.sid = s.sid ∧ n.fromInitiator ≠ s.initiator := by
  cases m <;> simp only [Session.decrypt] <;> split_ifs with h <;> simp [h]

end

end IdealOlm

open IdealOlm in
def idealOlm : Olm where
  Account := Account
  Session := Session
  PreKey := PreKey
  Normal := Normal
  identityKey a := a.identity
  generateOneTimeKeys rng n a :=
    { a with privates := a.privates ++ drawn rng n, unpublished := a.unpublished ++ drawn rng n }
  oneTimeKeys a := a.unpublished.filter fun k => k ∈ a.privates
  markKeysAsPublished a := { a with unpublished := [] }
  generateFallbackKey rng a := { a with fallbacks := (key rng :: a.fallbacks).take 2 }
  forgetFallbackKey a := { a with fallbacks := a.fallbacks.take 1 }
  createOutboundSession rng a ik otk := ⟨rng, true, true, ik, ⟨a.identity, ik, otk⟩⟩
  createInboundSession a ik p := a.openInbound ik p
  encrypt _ s b :=
    (if s.initiator ∧ s.fresh then .preKey ⟨s.sid, s.keys, b⟩ else .normal ⟨s.sid, s.initiator, b⟩, s)
  decrypt s m :=
    match s.decrypt m with
    | .error e => (.error e, s)
    | .ok b => (.ok b, { s with fresh := false })
  fromParts := fromParts
  toParts := toParts

namespace IdealOlm

def peerKeys : PeerKeys idealOlm where
  peerKey s := s.peer
  outbound _ _ _ _ := rfl
  inbound h := (openInbound_ok h).2.2.1
  encrypt _ _ _ := rfl
  decrypt s m := by
    simp only [idealOlm]
    split <;> rfl

def plain : OlmMessage PreKey Normal → Bytes
  | .preKey p => p.payload
  | .normal n => n.payload

def oneTimeKeys : OneTimeKeys idealOlm where
  holds a k := k ∈ a.privates
  firstKeys p := p.keys
  genuine _ := True
  plain := plain
  inbound_ok := by
    intro a p _ hr h
    have hp : p.keys.otk ∈ a.privates := h
    have hrec : p.keys.recipient = a.identity := hr
    refine ⟨⟨p.sid, false, false, p.keys.sender, p.keys⟩,
      { a with privates := a.privates.filter fun k => k ≠ p.keys.otk }, ?_⟩
    simp [idealOlm, Account.openInbound, hp, hrec, plain]
  inbound_uses h := (openInbound_ok h).2.2.2
  inbound_fails h k := by rw [openInbound_error h]
  unpublished := by
    intro a k h
    simpa using (List.mem_filter.1 h).2
  generate _ _ h := List.mem_append_left _ h
  marked _ := rfl
  mark _ _ := Iff.rfl
  fallback _ _ _ := Iff.rfl
  forget _ _ := Iff.rfl

theorem sameIdentity : SameIdentity idealOlm where
  inbound _ _ _ := openInbound_identity
  generate _ _ _ := rfl
  mark _ := rfl
  fallback _ _ := rfl
  forget _ := rfl

theorem parts : OlmParts idealOlm where
  parts := fromParts_toParts
  preKeyType _ := rfl
  normalType _ := rfl

def sessionPairs : SessionPairs idealOlm where
  toOneTimeKeys := oneTimeKeys
  sid s := s.sid
  initiator s := s.initiator
  fresh s := s.fresh
  keys s := s.keys
  msgSid
    | .preKey p => p.sid
    | .normal n => n.sid
  fromInitiator
    | .preKey _ => true
    | .normal n => n.fromInitiator
  outbound _ _ _ _ := ⟨rfl, rfl, rfl⟩
  encrypt_keeps _ _ _ := ⟨rfl, rfl, rfl, rfl⟩
  encrypt_msg rng s b := by
    simp only [idealOlm]
    split_ifs with h
    · exact ⟨rfl, h.1.symm, rfl⟩
    · exact ⟨rfl, rfl, rfl⟩
  encrypt_first rng s b hi hf := by
    refine ⟨⟨s.sid, s.keys, b⟩, ?_, trivial, rfl⟩
    simp [idealOlm, hi, hf]
  decrypt_ok := by
    intro s m hs hi
    have hok : s.decrypt m = .ok (plain m) := by
      cases m with
      | preKey p => simp_all [Session.decrypt, plain]
      | normal n => simp_all [Session.decrypt, plain]
    have hdec : (idealOlm.decrypt s m).1 = (s.decrypt m) := by
      simp only [idealOlm]
      split <;> simp_all
    exact hdec.trans hok
  decrypt_error := by
    intro s m h
    cases hd : s.decrypt m with
    | error e => exact ⟨e, by simp [idealOlm, hd]⟩
    | ok b =>
      refine absurd ?_ h
      have hb := decrypt_iff.1 ⟨b, hd⟩
      cases m with
      | preKey p => exact ⟨hb.1, by simp [hb.2]⟩
      | normal n => exact hb
  decrypt_keeps s m := by
    simp only [idealOlm]
    split <;> exact ⟨rfl, rfl⟩
  inbound_pairs h := ⟨(openInbound_ok h).1, (openInbound_ok h).2.1⟩

end IdealOlm
end Variance
