import Variance.Spec.Signing

/-! What a signature tells apart. Texts are signed one after the other, without their lengths: what is signed can be
read back up to where one text ends and the next begins, and only if nothing of variable length stands behind. -/

namespace Variance

theorem Ed25519.Unforgeable.not_both {E : Ed25519} (hE : E.Unforgeable) {key a b s : Bytes} (hne : a ≠ b)
    (h : E.verify key a s = true) : E.verify key b s = false := by
  cases hb : E.verify key b s with
  | false => rfl
  | true => exact (hne (hE key a b s h hb)).elim

/-! Direct messages -/

namespace DirectMessage
variable {m m' : DirectMessage}

theorem signableBytes_eq_iff (h : m.Typed) (h' : m'.Typed) : signableBytes m = signableBytes m' ↔
    m.text = m'.text ∧ m.olmMessageType = m'.olmMessageType ∧ m.timestamp = m'.timestamp := by
  unfold signableBytes
  constructor
  · intro heq
    obtain ⟨heq, htime⟩ := List.append_inj' heq (by simp [length_leBytes])
    obtain ⟨htext, htype⟩ := List.append_inj' heq (by simp [length_leBytes])
    have hlt := h.olmMessageType
    have hlt' := h'.olmMessageType
    exact ⟨htext, leBytes_inj (by omega) (by omega) htype, leBytes_i64 h.timestamp h'.timestamp htime⟩
  · rintro ⟨htext, htype, htime⟩
    unfold text at htext
    rw [htext, htype, htime]

/-- Texts of the same lengths end at the same places. -/
theorem text_eq_iff (hl : m.SameLengths m') : m.text = m'.text ↔
    m.id = m'.id ∧ m.senderDid = m'.senderDid ∧ m.recipientDid = m'.recipientDid ∧ m.ciphertext = m'.ciphertext := by
  unfold text
  constructor
  · intro heq
    obtain ⟨heq, hciphertext⟩ := List.append_inj heq (by simp [hl.id, hl.senderDid, hl.recipientDid])
    obtain ⟨heq, hrecipient⟩ := List.append_inj heq (by simp [hl.id, hl.senderDid])
    obtain ⟨hid, hsender⟩ := List.append_inj heq hl.id
    exact ⟨utf8Bytes_inj.1 hid, utf8Bytes_inj.1 hsender, utf8Bytes_inj.1 hrecipient, hciphertext⟩
  · rintro ⟨hid, hsender, hrecipient, hciphertext⟩
    rw [hid, hsender, hrecipient, hciphertext]

/-- A signature covers the id, the DIDs and the ciphertext as one text, the type and the timestamp. With the ids and the
DIDs of the same lengths it covers each of them. -/
theorem signature_covers (h : m.Typed) (h' : m'.Typed) :
    (signableBytes m = signableBytes m' ↔
      m.text = m'.text ∧ m.olmMessageType = m'.olmMessageType ∧ m.timestamp = m'.timestamp) ∧
    (m.SameLengths m' → (signableBytes m = signableBytes m' ↔ m.SameSigned m')) ∧
    (signableBytes m ≠ signableBytes m' → ∀ E : Ed25519, E.Unforgeable → ∀ key s,
      (m.withSignature s).verifyWithKey E key = true → (m'.withSignature s).verifyWithKey E key = false) := by
  refine ⟨signableBytes_eq_iff h h', fun hl => ?_, fun hne E hE key s hok => ?_⟩
  · rw [signableBytes_eq_iff h h', text_eq_iff hl]
    constructor
    · rintro ⟨⟨hid, hsender, hrecipient, hciphertext⟩, htype, htime⟩
      exact ⟨hid, hsender, hrecipient, hciphertext, htype, htime⟩
    · intro hs
      exact ⟨⟨hs.id, hs.senderDid, hs.recipientDid, hs.ciphertext⟩, hs.olmMessageType, hs.timestamp⟩
  · obtain ⟨hsize, hverify⟩ := (Bool.and_eq_true _ _).mp hok
    have hother : E.verify key (signableBytes m') s = false := hE.not_both hne hverify
    unfold verifyWithKey
    rw [show signableBytes (m'.withSignature s) = signableBytes m' from rfl]
    simp [withSignature, hother]

end DirectMessage

namespace DirectSignature

def message (now : ℤ) (replyTo : Option String) : DirectMessage :=
  { id := "x", senderDid := "did:a", recipientDid := "did:b", ciphertext := [1], olmMessageType := 1, signature := []
    timestamp := now, type := 1, replyTo := replyTo, senderIdentityKey := none }

theorem typed (replyTo : Option String) : (message 0 replyTo).Typed ∧ (message 1 replyTo).Typed :=
  ⟨⟨(by decide : 1 < 2 ^ 32), (by decide : IsI64 0)⟩, ⟨(by decide : 1 < 2 ^ 32), (by decide : IsI64 1)⟩⟩

/-- An answer to another message, or to none, is signed over the same bytes. -/
theorem reply_unsigned : ¬ ∀ m m' : DirectMessage, m.Typed → m'.Typed → m.Apart m' := by
  intro h
  exact (h (message 0 none) (message 0 (some "y")) (typed _).1 (typed _).1 (by decide)).1 rfl

/-- A message of the next millisecond is not. -/
theorem time_signed : signableBytes (message 0 none) ≠ signableBytes (message 1 none) := by
  have hcovers := DirectMessage.signature_covers (typed none).1 (typed none).2
  exact fun heq => absurd (hcovers.1.1 heq).2.2 (by decide)

end DirectSignature

/-! Receipts -/

namespace SignedReceipt
variable {r r' : SignedReceipt}

theorem payload_eq (r : SignedReceipt) : r.payload = utf8Bytes (String.join r.texts) ++
    leBytes 4 (r.status % 2 ^ 32).toNat ++ leBytes 8 (r.timestamp % 2 ^ 64).toNat := by
  cases r with
  | direct r => simp [payload, texts, status, timestamp, ReadReceipt.payload, String.join, utf8Bytes_append]
  | group r => simp [payload, texts, status, timestamp, GroupReadReceipt.payload, String.join, utf8Bytes_append]

theorem payload_eq_iff (h : r.Typed) (h' : r'.Typed) : r.payload = r'.payload ↔
    String.join r.texts = String.join r'.texts ∧ r.status = r'.status ∧ r.timestamp = r'.timestamp := by
  rw [payload_eq, payload_eq]
  constructor
  · intro heq
    obtain ⟨heq, htime⟩ := List.append_inj' heq (by simp [length_leBytes])
    obtain ⟨htext, hstatus⟩ := List.append_inj' heq (by simp [length_leBytes])
    exact ⟨utf8Bytes_inj.1 htext, leBytes_i32 h.status h'.status hstatus, leBytes_i64 h.timestamp h'.timestamp htime⟩
  · rintro ⟨htext, hstatus, htime⟩
    rw [htext, hstatus, htime]

theorem unsigned_eq_iff : r.withSignature [] = r'.withSignature [] ↔
    r.texts = r'.texts ∧ r.status = r'.status ∧ r.timestamp = r'.timestamp := by
  cases r with
  | direct r =>
    cases r' with
    | direct r' => simp [withSignature, texts, status, timestamp, and_assoc]
    | group r' => simp [withSignature, texts]
  | group r =>
    cases r' with
    | direct r' => simp [withSignature, texts]
    | group r' => simp [withSignature, texts, status, timestamp, and_assoc]

theorem verifyWithKey_eq (E : Ed25519) (r : SignedReceipt) (s key : Bytes) :
    (r.withSignature s).verifyWithKey E key = (decide (s.length = 64) && E.verify key r.payload s) := by
  cases r with
  | direct r => rfl
  | group r => rfl

/-- Two receipts are told apart if and only if they are not one text cut into different fields. -/
theorem receipts_apart_iff (h : r.Typed) (h' : r'.Typed) : r.Apart r' ↔ ¬ r.Recut r' := by
  constructor
  · intro ha hr
    refine (ha fun heq => hr.texts (unsigned_eq_iff.1 heq).1).1 ?_
    exact (payload_eq_iff h h').2 ⟨hr.joined, hr.status, hr.timestamp⟩
  · intro hr hne
    have hpayload : r.payload ≠ r'.payload := by
      intro heq
      obtain ⟨hjoin, hstatus, htime⟩ := (payload_eq_iff h h').1 heq
      refine hr ⟨fun htexts => hne ?_, hjoin, hstatus, htime⟩
      exact unsigned_eq_iff.2 ⟨htexts, hstatus, htime⟩
    refine ⟨hpayload, fun E hE key s hok => ?_⟩
    rw [verifyWithKey_eq] at hok ⊢
    obtain ⟨-, hverify⟩ := (Bool.and_eq_true _ _).mp hok
    simp [hE.not_both hpayload hverify]

end SignedReceipt

namespace ReceiptSignature

def direct (messageId : String) (status : ℤ) : SignedReceipt := .direct ⟨messageId, "did:b", status, 1, []⟩
def group (messageId groupId : String) : SignedReceipt := .group ⟨messageId, groupId, "did:b", receiptRead, 1, []⟩

theorem typed_direct (messageId : String) {status : ℤ} (h : IsI32 status) : (direct messageId status).Typed :=
  ⟨h, (by decide : IsI64 1)⟩

theorem typed_group (messageId groupId : String) : (group messageId groupId).Typed :=
  ⟨(by decide : IsI32 receiptRead), (by decide : IsI64 1)⟩

/-- A group's receipt is one for the direct message whose id is the message's and the group's, one after the other. -/
theorem group_reads_as_direct : ¬ ∀ r r' : SignedReceipt, r.Typed → r'.Typed → r.Apart r' := by
  intro h
  have hread : (direct "xg" receiptRead).Typed := typed_direct "xg" (by decide)
  have hapart := h _ _ (typed_group "x" "g") hread
  exact (SignedReceipt.receipts_apart_iff (typed_group "x" "g") hread).1 hapart ⟨by decide, by decide, rfl, rfl⟩

theorem delivered_apart_read : (direct "x" receiptDelivered).Apart (direct "x" receiptRead) :=
  (SignedReceipt.receipts_apart_iff (typed_direct "x" (by decide)) (typed_direct "x" (by decide))).2 fun h => h.texts rfl

end ReceiptSignature

/-! Signaling messages -/

theorem SignalingContent.payload_eq_iff {c c' : SignalingContent} (h : c.Typed) (h' : c'.Typed) :
    c.payload = c'.payload ↔ c.SignedAs c' := by
  cases c with
  | offer sdp callType =>
    cases c' with
    | offer sdp' callType' =>
      simp only [payload, List.cons_append, List.cons.injEq, true_and, SignedAs, offer.injEq]
      constructor
      · intro heq
        obtain ⟨hsdp, htype⟩ := List.append_inj' heq (by simp [length_leBytes])
        exact ⟨utf8Bytes_inj.1 hsdp, leBytes_i32 h h' htype⟩
      · rintro ⟨rfl, rfl⟩
        rfl
    | _ => simp [payload, SignedAs]
  | answer sdp =>
    cases c' with
    | answer sdp' => simp [payload, SignedAs, utf8Bytes_inj]
    | _ => simp [payload, SignedAs]
  | iceCandidate candidate sdpMid index =>
    cases c' with
    | iceCandidate candidate' sdpMid' index' =>
      simp [payload, SignedAs, ← utf8Bytes_append, utf8Bytes_inj]
    | _ => simp [payload, SignedAs]
  | control type reason =>
    cases c' with
    | control type' reason' =>
      simp only [payload, List.cons.injEq, true_and, SignedAs]
      constructor
      · exact leBytes_i32 h h'
      · rintro rfl
        rfl
    | _ => simp [payload, SignedAs]

namespace SignalingMessage
variable {m m' : SignalingMessage}

theorem payload_eq (m : SignalingMessage) : m.payload = utf8Bytes m.text ++ m.tail := by
  unfold payload text tail
  cases m.message with
  | none => simp [utf8Bytes_append]
  | some c => simp [utf8Bytes_append]

/-- What follows the texts can be read back, but for what the contents leave unsigned. -/
theorem tail_eq_iff (h : m.Typed) (h' : m'.Typed) : m.tail = m'.tail ↔
    m.timestamp = m'.timestamp ∧ m.nonce = m'.nonce ∧ Option.Rel SignalingContent.SignedAs m.message m'.message := by
  have hmessage : (m.message.map (·.payload)).getD [] = (m'.message.map (·.payload)).getD [] ↔
      Option.Rel SignalingContent.SignedAs m.message m'.message := by
    cases hm : m.message with
    | none =>
      cases hm' : m'.message with
      | none => simp
      | some c' => cases c' <;> simp [SignalingContent.payload]
    | some c =>
      cases hm' : m'.message with
      | none => cases c <;> simp [SignalingContent.payload]
      | some c' =>
        simp only [Option.rel_some_some]
        exact SignalingContent.payload_eq_iff (h.content c hm) (h'.content c' hm')
  unfold tail
  constructor
  · intro heq
    obtain ⟨heq, hcontent⟩ := List.append_inj heq (by simp [length_leBytes, h.nonce, h'.nonce])
    obtain ⟨htime, hnonce⟩ := List.append_inj heq (by simp [length_leBytes])
    exact ⟨leBytes_i64 h.timestamp h'.timestamp htime, hnonce, hmessage.1 hcontent⟩
  · rintro ⟨htime, hnonce, hrel⟩
    rw [htime, hnonce, hmessage.2 hrel]

/-- Same bytes: the same text in front and the same behind it, or one text longer than the other. -/
theorem payload_eq_iff (h : m.Typed) (h' : m'.Typed) : m.payload = m'.payload ↔
    (m.text = m'.text ∧ m.timestamp = m'.timestamp ∧ m.nonce = m'.nonce ∧
      Option.Rel SignalingContent.SignedAs m.message m'.message) ∨ m.Slid m' ∨ m'.Slid m := by
  rw [payload_eq, payload_eq, List.append_eq_append_iff, ← tail_eq_iff h h']
  constructor
  · rintro (⟨more, htext, htail⟩ | ⟨more, htext, htail⟩)
    · by_cases hmore : more = []
      · subst hmore
        exact Or.inl ⟨utf8Bytes_inj.1 (by simpa using htext.symm), by simpa using htail⟩
      · exact Or.inr (Or.inl ⟨more, hmore, htext, htail⟩)
    · by_cases hmore : more = []
      · subst hmore
        exact Or.inl ⟨utf8Bytes_inj.1 (by simpa using htext), by simpa using htail.symm⟩
      · exact Or.inr (Or.inr ⟨more, hmore, htext, htail⟩)
  · rintro (⟨htext, htail⟩ | ⟨more, -, htext, htail⟩ | ⟨more, -, htext, htail⟩)
    · exact Or.inl ⟨[], by simp [htext], by simpa using htail⟩
    · exact Or.inl ⟨more, htext, htail⟩
    · exact Or.inr ⟨more, htext, htail⟩

theorem text_congr (h : m.withSignature [] = m'.withSignature []) : m.text = m'.text := by
  have heq := congrArg text h
  exact heq

theorem Slid.text_ne (h : m.Slid m') : m.text ≠ m'.text := by
  obtain ⟨more, hmore, htext, -⟩ := h
  intro heq
  rw [heq] at htext
  exact hmore (List.append_right_eq_self.1 htext.symm)

theorem verifyMessage_ok {E : Ed25519} {h : MediaHandler} {key : Bytes} (hok : (h.verifyMessage E m key).1 = .ok ()) :
    E.verify key m.payload m.signature = true := by
  by_contra hverify
  unfold MediaHandler.verifyMessage at hok
  rw [if_pos (Bool.eq_false_iff.2 hverify)] at hok
  split_ifs at hok

/-- Two signaling messages are told apart if and only if they are not signed as one with the same text in front, and
neither's text goes on into what follows the other's. -/
theorem signaling_apart_iff (h : m.Typed) (h' : m'.Typed) : m.Apart m' ↔ ¬ m.Recut m' ∧ ¬ m.Slid m' ∧ ¬ m'.Slid m := by
  constructor
  · intro ha
    refine ⟨fun hr => ?_, fun hs => ?_, fun hs => ?_⟩
    · refine (ha hr.differ).1 ((payload_eq_iff h h').2 (Or.inl ?_))
      exact ⟨hr.text, hr.timestamp, hr.nonce, hr.message⟩
    · exact (ha fun heq => hs.text_ne (text_congr heq)).1 ((payload_eq_iff h h').2 (Or.inr (Or.inl hs)))
    · exact (ha fun heq => hs.text_ne (text_congr heq).symm).1 ((payload_eq_iff h h').2 (Or.inr (Or.inr hs)))
  · rintro ⟨hr, hs, hs'⟩ hne
    have hpayload : m.payload ≠ m'.payload := by
      intro heq
      rcases (payload_eq_iff h h').1 heq with ⟨htext, htime, hnonce, hmessage⟩ | hslid | hslid
      · exact hr ⟨hne, htext, htime, hnonce, hmessage⟩
      · exact hs hslid
      · exact hs' hslid
    refine ⟨hpayload, fun E hE key s g g' hok hok' => ?_⟩
    have hverify : E.verify key m.payload s = true := verifyMessage_ok hok
    have hverify' : E.verify key m'.payload s = true := verifyMessage_ok hok'
    exact hpayload (hE key _ _ s hverify hverify')

end SignalingMessage

namespace SignalingSignature

def hangup (reason : Option String) (now : ℤ) : SignalingMessage :=
  { callId := "c", senderDid := "did:a", recipientDid := "did:b", message := some (.control controlHangup reason)
    timestamp := now, signature := [], nonce := List.replicate 16 0 }

theorem typed (reason : Option String) {now : ℤ} (h : IsI64 now) : (hangup reason now).Typed := by
  refine ⟨h, rfl, ?_⟩
  rintro _ ⟨⟩
  exact (by decide : IsI32 controlHangup)

/-- The reason of a hangup is not signed. -/
theorem reason_unsigned : ¬ ∀ m m' : SignalingMessage, m.Typed → m'.Typed → m.Apart m' := by
  intro h
  exact (h (hangup none 0) (hangup (some "busy") 0) (typed _ (by decide)) (typed _ (by decide)) (by decide)).1 rfl

theorem time_apart : (hangup none 0).Apart (hangup none 1) := by
  refine (SignalingMessage.signaling_apart_iff (typed none (by decide)) (typed none (by decide))).2 ⟨?_, ?_, ?_⟩
  · intro hr
    exact absurd hr.timestamp (by decide)
  · exact fun hs => hs.text_ne rfl
  · exact fun hs => hs.text_ne rfl

end SignalingSignature

end Variance
