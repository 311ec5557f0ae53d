import Variance.Proofs.CodecFidelity
import Variance.Proofs.RelayPaging
import Variance.Sanity.Since
import Variance.Spec.PageSize

/-! When an answer fits on the wire. A page always begins with the first message there is; how long it gets is left to
the senders of the messages. -/

namespace Variance

open MessagingProto Protobuf

/-! The encoded length of a response -/

theorem length_offlineResponse (ms : List MessagingProto.OfflineMessageEnvelope) (more : Bool) (cursor : Option Int64) :
    (MessagingProto.OfflineMessageResponse.schema.encode ⟨ms, more, cursor, none, none⟩).length =
      (ms.map fun e => nestedLength (OfflineMessageEnvelope.schema.encode e).length).sum + (if more then 2 else 0) +
        cursor.elim 0 fun n => 1 + (varint n.toUInt64.toNat).length := by
  have hfields : MessagingProto.OfflineMessageResponse.schema.fields ⟨ms, more, cursor, none, none⟩ =
      ms.map (fun e => ⟨1, .bytes (OfflineMessageEnvelope.schema.encode e)⟩) ++
        ((if more then [⟨2, .varint 1⟩] else []) ++ cursor.elim [] fun n => [⟨3, .varint n.toUInt64⟩]) := by
    cases more <;> cases cursor <;> rfl
  have hms : (encodeFields (ms.map fun e => ⟨1, .bytes (OfflineMessageEnvelope.schema.encode e)⟩)).length =
      (ms.map fun e => nestedLength (OfflineMessageEnvelope.schema.encode e).length).sum := by
    rw [length_encodeFields, List.map_map]
    congr 1
    exact List.map_congr_left fun e _ => length_encode_bytes (by omega) _
  rw [Schema.encode, hfields, encodeFields_append, encodeFields_append, List.length_append, List.length_append, hms]
  have hmore : (encodeFields (if more then [⟨2, .varint 1⟩] else [])).length = if more then 2 else 0 := by
    cases more
    · rfl
    · simp [Field.encode, varint_small]
  have hcursor : (encodeFields (cursor.elim [] fun n => [⟨3, .varint n.toUInt64⟩])).length =
      cursor.elim 0 fun n => 1 + (varint n.toUInt64.toNat).length := by
    cases cursor with
    | none => rfl
    | some n =>
      rw [Option.elim_some, Option.elim_some, encodeFields_cons, encodeFields_nil, List.append_nil,
        length_encode_varint (by omega)]
  omega

theorem length_syncResponse (ms : List MessagingProto.GroupMessage) (more : Bool) :
    (MessagingProto.GroupSyncResponse.schema.encode ⟨ms, more, none, none⟩).length =
      (ms.map fun m => nestedLength (GroupMessage.schema.encode m).length).sum + if more then 2 else 0 := by
  have hms : (encodeFields (ms.map fun m => ⟨1, .bytes (GroupMessage.schema.encode m)⟩)).length =
      (ms.map fun m => nestedLength (GroupMessage.schema.encode m).length).sum := by
    rw [length_encodeFields, List.map_map]
    congr 1
    exact List.map_congr_left fun m _ => length_encode_bytes (by omega) _
  have hmore : (encodeFields (if more then [⟨2, .varint 1⟩] else [])).length = if more then 2 else 0 := by
    cases more
    · rfl
    · simp [Field.encode, varint_small]
  rw [Schema.encode, CodecFidelity.fields_messages, encodeFields_append, List.length_append, hms, hmore]

namespace RelayStore
variable {s : RelayStore} {request : OfflineMessageRequest}

/-- What a request is answered. -/
theorem fetchMessages_page (h0 : request.limit ≠ 0) : s.fetchMessages request = .ok
    { messages := s.page request
      hasMore := decide (s.beyondPage request)
      nextCursor := (s.page request).getLast?.map (·.storedAt) } := by
  obtain ⟨token, since, limit⟩ := request
  by_cases h1 : limit + 1 = 0
  · rw [fetchMessages_wrapped h0 h1]
    simp [page, beyondPage, h1]
  · rw [fetchMessages_eq h0 h1]
    simp [page, beyondPage, h1]

theorem page_ne_nil (h0 : request.limit ≠ 0) (h : s.laterThan request.mailboxToken request.sinceTimestamp ≠ []) :
    s.page request ≠ [] := by
  have hpos : 0 < request.limit.toNat := Nat.pos_of_ne_zero fun h => h0 (UInt32.toNat_inj.1 h)
  have hlen := List.length_pos_of_ne_nil h
  refine List.ne_nil_of_length_pos ?_
  rw [page, List.length_take]
  split_ifs <;> omega

theorem length_answer : (MessagingProto.OfflineMessageResponse.schema.encode (OfflineMessageResponse.toProto
      { messages := s.page request
        hasMore := decide (s.beyondPage request)
        nextCursor := (s.page request).getLast?.map (·.storedAt) })).length =
    ((s.page request).map fun e => nestedLength (OfflineMessageEnvelope.schema.encode e.toProto).length).sum +
      (if s.beyondPage request then 2 else 0) + (s.page request).getLast?.elim 0 fun e => int64Length e.storedAt := by
  rw [OfflineMessageResponse.toProto, length_offlineResponse, List.map_map]
  congr 1
  · congr 1
    simp
  · cases (s.page request).getLast? <;> rfl

theorem deliverable_iff {G : Generated} (hG : G.WireFormat) (h0 : request.limit ≠ 0) :
    s.Deliverable G request ↔ s.PageFits request := by
  have hpage := fetchMessages_page (s := s) h0
  unfold Deliverable PageFits
  constructor
  · intro h
    have hlen := (h _ hpage).1
    rwa [hG.offlineMessageResponse, length_answer] at hlen
  · intro h r hr
    rw [hpage] at hr
    obtain rfl := Except.ok.inj hr
    refine ⟨?_, page_ne_nil h0⟩
    rwa [hG.offlineMessageResponse, length_answer]

end RelayStore

namespace LocalMessageStorage
variable {s : LocalMessageStorage} {groupId : String} {since : ℤ} {limit : ℕ}

theorem serveSync_page : s.serveSync groupId since limit =
    { messages := s.page groupId since limit
      hasMore := decide ((s.page groupId since limit).length = effectiveLimit limit)
      errorCode := none
      errorMessage := none } := by
  rw [serveSync, fetchGroupSince_eq, max_eq_right (effectiveLimit_pos limit)]
  rfl

theorem deliverable_iff {G : Generated} (hG : G.WireFormat) :
    s.Deliverable G groupId since limit ↔ s.PageFits groupId since limit := by
  have hpos := effectiveLimit_pos limit
  have hne : s.range groupId since ≠ [] → s.page groupId since limit ≠ [] := by
    intro h
    have hlen := List.length_pos_of_ne_nil h
    refine List.ne_nil_of_length_pos ?_
    rw [page, List.length_take]
    omega
  have hlen : (MessagingProto.GroupSyncResponse.schema.encode
      (s.serveSync groupId since limit).toProto).length =
      ((s.page groupId since limit).map fun m => nestedLength (GroupMessage.schema.encode m.toProto).length).sum +
        if (s.page groupId since limit).length = effectiveLimit limit then 2 else 0 := by
    rw [serveSync_page, GroupSyncResponse.toProto, length_syncResponse, List.map_map]
    simp only [decide_eq_true_eq]
    rfl
  unfold Deliverable PageFits
  rw [hG.groupSyncResponse, hlen, serveSync_page]
  exact and_iff_left hne

end LocalMessageStorage

namespace PageSize

/-- What a member has after these messages. -/
def stored (ms : List GroupMessage) : LocalMessageStorage :=
  ms.foldl (fun s m => (s.storeGroup noFaults m).2) .empty

/-- Below the limit, so that the sync codec admits it. -/
def large (id : String) : GroupMessage :=
  { id, senderDid := "did:a", groupId := "g", timestamp := 1, type := 0, replyTo := none
    mlsCiphertext := List.replicate 600000 0 }

theorem wireFormat_messagingProto : messagingProto.WireFormat := ⟨fun _ => rfl, fun _ => rfl⟩

/-- A message is longer than its ciphertext. -/
theorem length_ciphertext_le {m : MessagingProto.GroupMessage} (h : m.mlsCiphertext ≠ []) :
    m.mlsCiphertext.length ≤ (GroupMessage.schema.encode m).length := by
  have hmem : (⟨11, .bytes m.mlsCiphertext⟩ : Field) ∈ GroupMessage.schema.fields m := by
    simp [GroupMessage.schema, Schema.map, Schema.prod, Schema.singular, h, Scalar.bytes]
  have hle := length_encode_le hmem
  rw [length_encode_bytes (by omega)] at hle
  exact (Nat.le_add_left _ _).trans hle

theorem stored_large {m : GroupMessage} {k : String} (h : (stored [large "1", large "2"]).groupMessages[k]? = some m) :
    m.mlsCiphertext = List.replicate 600000 0 := by
  change (((∅ : SledTree GroupMessage).insert (LocalMessageStorage.groupKey "g" 1 "1") (large "1")).insert
    (LocalMessageStorage.groupKey "g" 1 "2") (large "2"))[k]? = some m at h
  rw [get_insert, get_insert] at h
  split_ifs at h
  · obtain rfl := Option.some.inj h
    rfl
  · obtain rfl := Option.some.inj h
    rfl
  · simp at h

end PageSize
end Variance
