import Variance.Sanity.IdealGroup

/-! Whose message a group message is. MLS tells who encrypted it; both listeners go by what the envelope
and the payload say instead. -/

namespace Variance

/-- The did that a notice names as the author of what it announces. -/
def WsMessage.author : WsMessage → Option Did
  | .groupMessageReceived _ from_ _ _ => some from_
  | .roleChanged _ _ _ changedBy => some changedBy
  | .groupReceiptRead _ _ memberDid | .groupReceiptDelivered _ _ memberDid => some memberDid
  | _ => none

/-- The did that a payload names as its own author. -/
def GroupPayload.claimed : GroupPayload → Option Did
  | .receipt r => some r.readerDid
  | .message content =>
    if content.metadata["type"]? = some "admin_abandoned" then content.metadata["admin_did"]? else none

/-- Everything a message says about whom it is from is `s`. -/
def Truthful (m : GroupMessage) (payload : Option GroupPayload) (s : Did) : Prop :=
  m.senderDid = s ∧ ∀ d, payload.bind GroupPayload.claimed = some d → d = s

namespace Node
variable {M : OpenMls} {W : Wire} {n n' : Node M} {env : Env} {g : String} {s : Did} {m : GroupMessage}
  {d : DecryptedMessage} {payload : Option GroupPayload} {content : MessageContent} {receipt : GroupReadReceipt}

open LocalMessageStorage

/-- What is new in `n'` is attributed to `s`, our own DELIVERED for the message apart; and a message that says
it is from anybody else was rejected. -/
structure Attributed (n n' : Node M) (s : Did) (m : GroupMessage) (payload : Option GroupPayload) : Prop where
  messages : ∀ (k : String) (x : GroupMessage), n'.storage.groupMessages[k]? = some x →
    n.storage.groupMessages[k]? = some x ∨ x.senderDid = s
  receipts : ∀ (k : String) (r : GroupReadReceipt), n'.storage.groupReceipts[k]? = some r →
    n.storage.groupReceipts[k]? = some r ∨ r.readerDid = s ∨
      r.readerDid = n.localDid ∧ r.status = receiptDelivered ∧ r.groupId = m.groupId ∧ r.messageId = m.id
  announced : ∀ w ∈ notices n n', ∀ d, w.author = some d → d = s
  rejected : ¬ Truthful m payload s → n'.storage = n.storage ∧ notices n n' = []

/-- The live listener has nothing to do for the payload. -/
def LiveIgnored (n : Node M) (env : Env) : Option GroupPayload → Prop
  | none => True
  | some (.receipt receipt) =>
    receipt.readerDid = n.localDid ∨ env.faults "group_receipts" (groupReceiptKey receipt) = true
  | some (.message content) => content.metadata["type"]? = some "role_change" ∧
    (content.metadata["target_did"]? = none ∨ content.metadata["new_role"]? = none)

theorem attributed_same (hs : n'.storage = n.storage) (he : notices n n' = []) : Attributed n n' s m payload := by
  refine ⟨fun k x hx => Or.inl ?_, fun k r hr => Or.inl ?_, ?_, fun _ => ⟨hs, he⟩⟩
  · rwa [hs] at hx
  · rwa [hs] at hr
  · rw [he]
    simp

/-- Something is announced, so that the message has to be truthful. -/
theorem attributed_iff_of_announces {w : WsMessage} (ha : Announces [w] n n')
    (hm : m.senderDid = s → ∀ (k : String) (x : GroupMessage), n'.storage.groupMessages[k]? = some x →
      n.storage.groupMessages[k]? = some x ∨ x.senderDid = s)
    (hr : Truthful m payload s → ∀ (k : String) (r : GroupReadReceipt), n'.storage.groupReceipts[k]? = some r →
      n.storage.groupReceipts[k]? = some r ∨ r.readerDid = s ∨
        r.readerDid = n.localDid ∧ r.status = receiptDelivered ∧ r.groupId = m.groupId ∧ r.messageId = m.id)
    (hw : Truthful m payload s → ∀ d, w.author = some d → d = s) :
    Attributed n n' s m payload ↔ Truthful m payload s := by
  constructor
  · intro h
    by_contra hno
    have hnone := (h.rejected hno).2
    rw [ha.notices_eq] at hnone
    cases hnone
  · intro h
    refine ⟨hm h.1, hr h, ?_, fun hno => (hno h).elim⟩
    rw [ha.notices_eq]
    intro w' hw'
    obtain rfl := List.mem_singleton.1 hw'
    exact hw h

theorem attributed_receipt : Attributed n (n.handleGroupReceipt env m.groupId receipt) s m
    (some (.receipt receipt)) ↔
    Truthful m (some (.receipt receipt)) s ∨ LiveIgnored n env (some (.receipt receipt)) := by
  by_cases hi : LiveIgnored n env (some (.receipt receipt))
  · rw [handleGroupReceipt_ignored hi]
    exact iff_of_true (attributed_same rfl (Announces.of_eq rfl).notices_eq) (Or.inr hi)
  have hboth := not_or.1 hi
  rw [or_iff_left hi, handleGroupReceipt_stored hboth.1 (by simpa using hboth.2)]
  refine attributed_iff_of_announces (Announces.tell (.of_eq rfl) _) (fun _ k x hx => Or.inl hx) ?_ ?_
  · intro h k r hr
    rcases get_treeInsert_some hr with ⟨-, rfl⟩ | hold
    · exact Or.inr (Or.inl (h.2 _ rfl))
    · exact Or.inl hold
  · intro h d hd
    split_ifs at hd
    · exact h.2 d hd
    · exact h.2 d hd

theorem freezeGroup_frame (n : Node M) (env : Env) (g : String) (a : Option Did) :
    (n.freezeGroup env g a).storage.groupMessages = n.storage.groupMessages ∧
    (n.freezeGroup env g a).storage.groupReceipts = n.storage.groupReceipts := by
  unfold freezeGroup
  split
  · exact ⟨rfl, rfl⟩
  · exact ⟨rfl, rfl⟩

theorem updateMemberRole_frame (st : LocalMessageStorage) (f : Faults) (d : Did) (r : GroupRole) :
    (st.updateMemberRole f g d r).2.groupMessages = st.groupMessages ∧
    (st.updateMemberRole f g d r).2.groupReceipts = st.groupReceipts := by
  unfold updateMemberRole
  split
  · exact ⟨rfl, rfl⟩
  · split_ifs
    · exact ⟨rfl, rfl⟩
    · exact ⟨rfl, rfl⟩

theorem kept_messages {k : String} {x : GroupMessage}
    (h : (n.storeGroupContent W env m content).storage.groupMessages[k]? = some x) :
    n.storage.groupMessages[k]? = some x ∨ x = m := by
  rw [storeGroupContent_storage] at h
  have hx : (n.storage.storeGroup env.faults m).2.groupMessages[k]? = some x := by
    split_ifs at h
    · exact h
    · exact h
  rcases get_treeInsert_some hx with ⟨-, hm⟩ | hold
  · exact Or.inr hm.symm
  · exact Or.inl hold

theorem kept_receipts {k : String} {r : GroupReadReceipt}
    (h : (n.storeGroupContent W env m content).storage.groupReceipts[k]? = some r) :
    n.storage.groupReceipts[k]? = some r ∨
      r.readerDid = n.localDid ∧ r.status = receiptDelivered ∧ r.groupId = m.groupId ∧ r.messageId = m.id := by
  rw [storeGroupContent_storage] at h
  split_ifs at h
  · exact Or.inl h
  · rcases get_treeInsert_some h with ⟨-, rfl⟩ | hold
    · exact Or.inr ⟨rfl, rfl, rfl, rfl⟩
    · exact Or.inl hold

theorem attributed_content : Attributed n (n.handleGroupMessageContent W env m content) s m
    (some (.message content)) ↔
    Truthful m (some (.message content)) s ∨ LiveIgnored n env (some (.message content)) := by
  have hann := announces_handleGroupMessageContent n W env m content
  unfold contentNotices at hann
  by_cases ha : content.metadata["type"]? = some "admin_abandoned"
  · rw [ha] at hann
    rw [handleGroupMessageContent_abandoned ha] at hann ⊢
    rw [or_iff_left (by simp [LiveIgnored, ha])]
    obtain ⟨hm, hr⟩ := freezeGroup_frame n env m.groupId content.metadata["admin_did"]?
    refine attributed_iff_of_announces hann (fun _ k x hx => Or.inl ?_) (fun _ k r hr' => Or.inl ?_) ?_
    · rwa [← hm]
    · rwa [← hr]
    · intro _ d hd
      cases hd
  by_cases hr : content.metadata["type"]? = some "role_change"
  · rw [hr] at hann
    cases htd : content.metadata["target_did"]? with
    | none =>
      rw [handleGroupMessageContent_incomplete hr (by simp [htd])]
      exact iff_of_true (attributed_same rfl (Announces.of_eq rfl).notices_eq) (Or.inr ⟨hr, Or.inl htd⟩)
    | some targetDid =>
    cases hnr : content.metadata["new_role"]? with
    | none =>
      rw [handleGroupMessageContent_incomplete hr (by simp [hnr])]
      exact iff_of_true (attributed_same rfl (Announces.of_eq rfl).notices_eq) (Or.inr ⟨hr, Or.inr hnr⟩)
    | some newRole =>
    rw [htd, hnr] at hann
    rw [handleGroupMessageContent_role hr htd hnr] at hann ⊢
    rw [or_iff_left (by simp [LiveIgnored, htd, hnr])]
    obtain ⟨hm, hrec⟩ := updateMemberRole_frame (g := m.groupId) n.storage env.faults targetDid (roleOfLabel newRole)
    refine attributed_iff_of_announces hann (fun _ k x hx => Or.inl ?_) (fun _ k r hr' => Or.inl ?_) ?_
    · rwa [← hm]
    · rwa [← hrec]
    · rintro h d ⟨⟩
      exact h.1
  rw [handleGroupMessageContent_kept ha hr]
  rw [or_iff_left (by simp [LiveIgnored, hr])]
  refine attributed_iff_of_announces announces_storeGroupContent ?_ ?_ ?_
  · intro hs k x hx
    rcases kept_messages hx with hold | rfl
    · exact Or.inl hold
    · exact Or.inr hs
  · intro _ k r hr'
    rcases kept_receipts hr' with hold | hown
    · exact Or.inl hold
    · exact Or.inr (Or.inr hown)
  · rintro h d ⟨⟩
    exact h.1

theorem announces_handleGroupPlaintext (n : Node M) (W : Wire) (env : Env) (m : GroupMessage) (b : Bytes) :
    ∃ ns, Announces ns n (n.handleGroupPlaintext W env m b) := by
  rw [handleGroupPlaintext_eq]
  cases livePayload W b with
  | none => exact ⟨[], .of_eq rfl⟩
  | some p =>
    cases p with
    | message c => exact ⟨_, announces_handleGroupMessageContent _ _ _ _ _⟩
    | receipt r =>
      dsimp only
      by_cases hi : LiveIgnored n env (some (.receipt r))
      · rw [handleGroupReceipt_ignored hi]
        exact ⟨[], .of_eq rfl⟩
      · have hboth := not_or.1 hi
        rw [handleGroupReceipt_stored hboth.1 (by simpa using hboth.2)]
        exact ⟨_, Announces.tell (.of_eq rfl) _⟩

/-- Storage and notices are all that counts. -/
theorem attributed_congr {n₁ n₂ : Node M} (hs : n₁.storage = n.storage) (hl : n₁.localDid = n.localDid)
    (h' : n₂.storage = n'.storage) (he : notices n₁ n₂ = notices n n') :
    Attributed n₁ n₂ s m payload ↔ Attributed n n' s m payload := by
  constructor
  · rintro ⟨h₁, h₂, h₃, h₄⟩
    rw [hs, h'] at h₁ h₂ h₄
    rw [he] at h₃ h₄
    rw [hl] at h₂
    exact ⟨h₁, h₂, h₃, h₄⟩
  · rintro ⟨h₁, h₂, h₃, h₄⟩
    refine ⟨?_, ?_, ?_, ?_⟩
    · rwa [hs, h']
    · rwa [hs, h', hl]
    · rwa [he]
    · rwa [hs, h', he]

theorem attributed_synced (h : n.Decrypts g m d) (hn : n.storage.hasGroupMessage g m.id = false) :
    Attributed n (n.handleSyncedMessage W env g m).2 s m payload ↔ Truthful m payload s := by
  obtain ⟨mls, hs⟩ := h.synced hn W env
  rw [hs]
  have hann : Announces [.groupMessageReceived g m.senderDid m.id m.timestamp] n
      (n.handleSyncedMessage W env g m).2 := by
    rw [hs]
    refine Announces.tell (.of_eq ?_) _
    split <;> rfl
  rw [hs] at hann
  refine attributed_iff_of_announces hann ?_ ?_ ?_
  · intro hd k x hx
    have hx' : (n.storage.storeGroup env.faults m).2.groupMessages[k]? = some x := by
      rw [emit_storage] at hx
      split at hx
      · exact hx
      · exact hx
    rcases get_treeInsert_some hx' with ⟨-, rfl⟩ | hold
    · exact Or.inr hd
    · exact Or.inl hold
  · intro _ k r hr
    rw [emit_storage] at hr
    split at hr
    · exact Or.inl hr
    · exact Or.inl hr
  · rintro h d ⟨⟩
    exact h.1

/-- A message that decrypts as `s`'s is attributed to `s` by the live listener exactly when all it says about
its author is true, or it is ignored; by the sync listener exactly when it is had already, or all it says is
true. -/
theorem attribution_iff (W : Wire) (env : Env) (h : n.Decrypts g m d) :
    (g = m.groupId → (Attributed n (n.handleGroupMessage W env m) d.senderCredential m
      (livePayload W d.plaintext) ↔ Truthful m (livePayload W d.plaintext) d.senderCredential ∨
        LiveIgnored n env (livePayload W d.plaintext))) ∧
    (Attributed n (n.handleSyncedMessage W env g m).2 d.senderCredential m (livePayload W d.plaintext) ↔
      Truthful m (livePayload W d.plaintext) d.senderCredential ∨
        n.storage.hasGroupMessage g m.id = true) := by
  refine ⟨?_, ?_⟩
  · rintro rfl
    obtain ⟨mls, hl⟩ := h.live W env
    have hcongr : Attributed { n with mls := mls } (handleGroupPlaintext { n with mls := mls } W env m d.plaintext)
        d.senderCredential m (livePayload W d.plaintext) ↔
        Attributed n (n.handleGroupMessage W env m) d.senderCredential m (livePayload W d.plaintext) := by
      refine attributed_congr rfl rfl (by rw [hl, emit_storage]) ?_
      obtain ⟨ns, hns⟩ := announces_handleGroupPlaintext { n with mls := mls } W env m d.plaintext
      have hlive : Announces ns n (n.handleGroupMessage W env m) := by
        rw [hl]
        exact hns.quiet rfl
      rw [hns.notices_eq, hlive.notices_eq]
    rw [← hcongr, handleGroupPlaintext_eq]
    cases livePayload W d.plaintext with
    | none => exact iff_of_true (attributed_same rfl (Announces.of_eq rfl).notices_eq) (Or.inr trivial)
    | some p =>
      cases p with
      | receipt r => exact attributed_receipt
      | message c => exact attributed_content
  · cases hn : n.storage.hasGroupMessage g m.id with
    | false =>
      rw [attributed_synced h hn]
      simp
    | true =>
      refine iff_of_true ?_ (Or.inr rfl)
      unfold handleSyncedMessage
      rw [if_pos hn]
      exact attributed_same rfl (Announces.of_eq rfl).notices_eq

end Node

/-! A message in a group of three -/

namespace GroupAttribution
open IdealGroup

def hello : MessageContent := { text := "hello", attachments := [], mentions := [], replyTo := none, metadata := ∅ }

theorem decrypts_hello (from_ : Did) : group.Decrypts "g" (sent "did:b" from_ (payload hello))
    ⟨payload hello, "did:b"⟩ := decrypts (by decide +kernel)

/-- `did:b` speaks as `did:c`. -/
theorem member_speaks_as_another : ¬ ∀ (n : Node idealMls) (env : Env) (m : GroupMessage) (d : DecryptedMessage),
    StepSystem.Reachable (nodeSys idealMls idealWire) n → n.Decrypts m.groupId m d →
    n.Attributed (n.handleGroupMessage idealWire env m) d.senderCredential m (livePayload idealWire d.plaintext) := by
  intro h
  have hsame := (h group (env 6) _ _ reachable_group (decrypts_hello "did:c")).announced
    (.groupMessageReceived "g" "did:c" "x" 0) (by decide +kernel) "did:c" rfl
  exact absurd hsame (by decide)

theorem member_speaks : group.Attributed
    (group.handleGroupMessage idealWire (env 6) (sent "did:b" "did:b" (payload hello))) "did:b"
    (sent "did:b" "did:b" (payload hello)) (livePayload idealWire (payload hello)) := by
  refine ((Node.attribution_iff idealWire (env 6) (decrypts_hello "did:b")).1 rfl).2 (Or.inl ⟨rfl, ?_⟩)
  dsimp only
  rw [livePayload_payload]
  intro d hd
  simp [GroupPayload.claimed, hello] at hd

end GroupAttribution
end Variance
