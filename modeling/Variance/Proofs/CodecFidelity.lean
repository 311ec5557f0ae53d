import Mathlib.Data.List.Basic
import Variance.Spec.WireCodecs

/-! What the codecs read of what they wrote. The reader stops at the limit and decodes what it has: of a longer message
that is an error, unless a field ends just there, and then a shorter message. -/

namespace Variance
namespace MessagingProto

open Protobuf

section Reader
variable {α : Type} {P : Prost α}

theorem readLimited_within (h : P.Laws) {m : α} (hm : (P.encode m).length ≤ maxMessageSize) :
    readLimited P (P.encode m) = some m := by
  rw [readLimited, List.take_of_length_le hm, h.decode_encode]

/-- A long message cut where one of its fields ends is read as some message. -/
theorem readLimited_cut (h : P.Laws) {m : α} (hb : P.Boundary m maxMessageSize) :
    (readLimited P (P.encode m)).isSome := h.decode_cut m maxMessageSize hb

theorem readLimited_torn (h : P.Laws) {m : α} (hm : ¬ (P.encode m).length ≤ maxMessageSize)
    (hb : ¬ P.Boundary m maxMessageSize) : readLimited P (P.encode m) = none :=
  h.decode_torn m maxMessageSize (by omega) hb

theorem faithful_iff (h : P.Laws) (m : α) : Faithful (readLimited P) P.encode m ↔ P.Safe m := by
  unfold Faithful Prost.Safe
  by_cases hm : (P.encode m).length ≤ maxMessageSize
  · simp [hm, readLimited_within h hm]
  · rw [if_neg hm]
    simp only [hm, false_or]
    constructor
    · intro hnone hb
      have hsome := readLimited_cut h hb
      rw [hnone] at hsome
      cases hsome
    · exact readLimited_torn h hm

theorem protobufCodec_faithfulIff {β : Type} {Q : Prost β} (hP : P.Laws) (hQ : Q.Laws) :
    (protobufCodec P Q).FaithfulIff P.Safe Q.Safe := ⟨faithful_iff hP, faithful_iff hQ⟩

end Reader

/-- For every message of every codec, request or response: what is read is what was written, or an error when that is
over the limit, if and only if the message is not over it or no field of it ends at the limit. -/
theorem Generated.codecs_faithful_iff (G : Generated) (h : G.Laws) :
    G.offlineMessageCodec.FaithfulIff G.offlineMessageRequest.Safe G.offlineMessageResponse.Safe ∧
    G.directMessageCodec.FaithfulIff G.directMessage.Safe G.directMessageAck.Safe ∧
    G.typingIndicatorCodec.FaithfulIff G.typingIndicator.Safe G.typingIndicator.Safe ∧
    G.receiptCodec.FaithfulIff G.readReceipt.Safe G.readReceipt.Safe ∧
    G.groupSyncCodec.FaithfulIff G.groupSyncRequest.Safe G.groupSyncResponse.Safe :=
  ⟨protobufCodec_faithfulIff h.offlineMessageRequest h.offlineMessageResponse,
    protobufCodec_faithfulIff h.directMessage h.directMessageAck,
    protobufCodec_faithfulIff h.typingIndicator h.typingIndicator,
    protobufCodec_faithfulIff h.readReceipt h.readReceipt,
    protobufCodec_faithfulIff h.groupSyncRequest h.groupSyncResponse⟩

/-! The wire format itself -/

/-- Prost over a schema. -/
def Prost.ofSchema {α : Type} (s : Schema α) : Prost α where
  fields m := (s.fields m).map Field.encode
  decode := s.decode

section Schema
variable {α : Type} (s : Schema α)

theorem encode_ofSchema (m : α) : (Prost.ofSchema s).encode m = encodeFields (s.fields m) := rfl

theorem flatten_take_ofSchema (m : α) (k : ℕ) :
    (((Prost.ofSchema s).fields m).take k).flatten = encodeFields ((s.fields m).take k) := by
  rw [show (Prost.ofSchema s).fields m = (s.fields m).map Field.encode from rfl, ← List.map_take]
  rfl

theorem take_boundary {fs : List Field} {k n : ℕ} (hk : (encodeFields (fs.take k)).length = n) :
    (encodeFields fs).take n = encodeFields (fs.take k) := by
  conv_lhs => rw [← List.take_append_drop k fs, encodeFields_append]
  rw [List.take_append_of_le_length (by omega), List.take_of_length_le (by omega)]

theorem laws_ofSchema : (Prost.ofSchema s).Laws := by
  refine ⟨s.decode_encode, fun m n hb => ?_, fun m n hn hb => ?_⟩
  · obtain ⟨k, hk⟩ := hb
    rw [flatten_take_ofSchema] at hk
    rw [encode_ofSchema, take_boundary hk]
    exact s.decode_cut m k
  · rw [encode_ofSchema] at hn ⊢
    rcases take_encodeFields (s.fields m) n hn with ⟨k, -, hk⟩ | ⟨k, t, htake, hne, ht⟩
    · exact absurd ⟨k, by rw [flatten_take_ofSchema, hk]⟩ hb
    · rw [htake]
      exact s.decode_torn hne ht

end Schema

/-- The messages over the wire format. -/
def messagingProto : Generated where
  offlineMessageRequest := .ofSchema OfflineMessageRequest.schema
  offlineMessageResponse := .ofSchema OfflineMessageResponse.schema
  directMessage := .ofSchema DirectMessage.schema
  directMessageAck := .ofSchema DirectMessageAck.schema
  typingIndicator := .ofSchema TypingIndicator.schema
  readReceipt := .ofSchema ReadReceipt.schema
  groupSyncRequest := .ofSchema GroupSyncRequest.schema
  groupSyncResponse := .ofSchema GroupSyncResponse.schema

theorem laws_messagingProto : messagingProto.Laws :=
  ⟨laws_ofSchema _, laws_ofSchema _, laws_ofSchema _, laws_ofSchema _, laws_ofSchema _, laws_ofSchema _,
    laws_ofSchema _, laws_ofSchema _⟩

namespace CodecFidelity

/-- A message that makes up a field of exactly the limit's length. -/
def large : GroupMessage := ⟨"", "", "", 0, 0, none, List.replicate 1048568 0⟩

def small : GroupMessage := ⟨"", "", "", 1, 0, none, []⟩

def response : GroupSyncResponse := ⟨[large, small], true, none, none⟩

/-- What is left of the response. -/
def shorter : GroupSyncResponse := ⟨[large], false, none, none⟩

theorem fields_ciphertext {c : Bytes} (hc : c ≠ []) :
    GroupMessage.schema.fields ⟨"", "", "", 0, 0, none, c⟩ = [⟨11, .bytes c⟩] := by
  simp [GroupMessage.schema, Schema.map, Schema.prod, Schema.singular, Schema.optional, hc, Scalar.bytes]

theorem fields_messages (ms : List GroupMessage) (b : Bool) : GroupSyncResponse.schema.fields ⟨ms, b, none, none⟩ =
    ms.map (fun m => ⟨1, .bytes (GroupMessage.schema.encode m)⟩) ++ if b then [⟨2, .varint 1⟩] else [] := by
  cases b <;> rfl

theorem length_varint {n : ℕ} (h : 16384 ≤ n) (h' : n < 2097152) : (varint n).length = 3 := by
  rw [varint_large (by omega), varint_large (by omega), varint_small (by omega)]
  rfl

theorem length_large : (GroupMessage.schema.encode large).length = 1048572 := by
  have hlen : (List.replicate 1048568 (0 : UInt8)).length = 1048568 := List.length_replicate
  have hne : List.replicate 1048568 (0 : UInt8) ≠ [] := List.ne_nil_of_length_pos (by omega)
  rw [large, Schema.encode, fields_ciphertext hne, encodeFields_cons, encodeFields_nil, List.append_nil,
    length_encode_bytes (by omega), hlen, length_varint (by omega) (by omega)]

theorem length_shorter : (messagingProto.groupSyncResponse.encode shorter).length = maxMessageSize := by
  have hlen := length_large
  rw [messagingProto, encode_ofSchema, shorter, fields_messages, List.map_singleton, if_neg (by decide), List.append_nil,
    encodeFields_cons, encodeFields_nil, List.append_nil, length_encode_bytes (by omega), hlen,
    length_varint (by omega) (by omega)]
  rfl

theorem response_eq : messagingProto.groupSyncResponse.encode response =
    messagingProto.groupSyncResponse.encode shorter ++
      messagingProto.groupSyncResponse.encode ⟨[small], true, none, none⟩ := by
  simp only [messagingProto, encode_ofSchema, response, shorter, fields_messages]
  rw [← encodeFields_append]
  rfl

/-- The second message and `has_more` are lost. -/
theorem response_cut : messagingProto.groupSyncCodec.readResponse
    (messagingProto.groupSyncCodec.writeResponse response) = some shorter := by
  show readLimited messagingProto.groupSyncResponse (messagingProto.groupSyncResponse.encode response) = some shorter
  rw [readLimited, response_eq, ← length_shorter, List.take_left]
  exact laws_messagingProto.groupSyncResponse.decode_encode shorter

theorem response_not_faithful : ¬ ∀ G : Generated, G.Laws → G.Faithful := by
  intro h
  have hall := (h messagingProto laws_messagingProto).2.2.2.2.2 response
  have hf := hall.2 trivial
  unfold MessagingProto.Faithful at hf
  rw [response_cut] at hf
  split_ifs at hf
  exact absurd (congrArg (·.hasMore) (Option.some.inj hf)) (by decide)

theorem length_page : (messagingProto.groupSyncResponse.encode ⟨[], true, none, none⟩).length = 2 := by
  rw [messagingProto, encode_ofSchema, fields_messages]
  simp [Field.encode, varint_small]

/-- A page without messages is read as it was written. -/
theorem page_faithful : MessagingProto.Faithful messagingProto.groupSyncCodec.readResponse
    messagingProto.groupSyncCodec.writeResponse ⟨[], true, none, none⟩ := by
  refine ((messagingProto.codecs_faithful_iff laws_messagingProto).2.2.2.2.2 _).2 (Or.inl ?_)
  rw [length_page]
  decide

end CodecFidelity
end MessagingProto
end Variance
