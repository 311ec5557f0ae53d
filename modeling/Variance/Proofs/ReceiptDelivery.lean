import Variance.Sanity.Trees
import Variance.Spec.Receipts

/-! Receipts in the queue, and out of it: every one of them is safe along a run if and only if each step is careful
with what it takes from its place. -/

namespace Variance

namespace ReadReceipt
variable {a b c : ReadReceipt}

theorem Covers.trans (h : a.Covers b) (h' : b.Covers c) : a.Covers c := by
  rcases h with rfl | ⟨hm, hs⟩
  · exact h'
  · rcases h' with rfl | ⟨hm', hs'⟩
    · exact Or.inr ⟨hm, hs⟩
    · exact Or.inr ⟨hm.trans hm', by omega⟩

theorem Covers.messageId (h : a.Covers b) : a.messageId = b.messageId := by
  rcases h with rfl | ⟨hm, -⟩
  · rfl
  · exact hm

end ReadReceipt

theorem pendingReceiptKey_inj {a b : Did} {messageId : String} :
    pendingReceiptKey a messageId = pendingReceiptKey b messageId ↔ a = b := by
  unfold pendingReceiptKey
  rw [Text.append_left_inj, Text.append_left_inj]

namespace ReceiptOutbox
variable {s s' : ReceiptOutbox} {d did : Did} {r r' old : ReadReceipt} {f : Faults}

/-- What is in the queue was put there. -/
def Filed (s : ReceiptOutbox) : Prop :=
  ∀ (k : String) r, s.storage.pendingReceipts[k]? = some r →
    ∃ d, (d, r) ∈ s.queued ∧ pendingReceiptKey d r.messageId = k

/-- Under the key of a peer and a message lies what was put there for that peer. -/
theorem Filed.queued (h : s.Filed) (hr : s.Waiting d r) : (d, r) ∈ s.queued := by
  obtain ⟨d', hq, hkey⟩ := h _ _ hr
  rwa [pendingReceiptKey_inj.1 hkey] at hq

theorem Safe.of_covers (h : s.Safe d r') (hc : r'.Covers r) : s.Safe d r := by
  obtain ⟨r1, hr1, hplace⟩ := h
  exact ⟨r1, hr1.trans hc, hplace⟩

theorem SafeAway.safe (h : s.SafeAway d r) : s.Safe d r := by
  obtain ⟨r', hc, haway⟩ := h
  exact ⟨r', hc, Or.inr haway⟩

/-- What is away may only go on being so. -/
theorem SafeAway.mono (h : s.SafeAway d r) (haway : ∀ r', s.Away d r' → s'.Away d r') : s'.SafeAway d r := by
  obtain ⟨r', hc, ha⟩ := h
  exact ⟨r', hc, haway r' ha⟩

/-- What is in the queue may be away instead, or be covered. -/
theorem Safe.mono (h : s.Safe d r) (haway : ∀ r', r'.Covers r → s.Away d r' → s'.Safe d r')
    (hwait : ∀ r', r'.Covers r → s.Waiting d r' → s'.Safe d r') : s'.Safe d r := by
  obtain ⟨r', hc, hplace⟩ := h
  rcases hplace with hw | ha
  · exact (hwait r' hc hw).of_covers hc
  · exact (haway r' hc ha).of_covers hc

theorem safe_of_away (h : s.Away d r) : s.Safe d r := ⟨r, Or.inl rfl, Or.inr h⟩

theorem safe_of_waiting (h : s.Waiting d r) : s.Safe d r := ⟨r, Or.inl rfl, Or.inl h⟩

/-! Queueing -/

theorem queue_failed (h : f "pending_receipts" (pendingReceiptKey d r.messageId) = true) : s.queue f d r = s := by
  unfold queue ReceiptStorage.storePendingReceipt treeInsert
  simp [h]

theorem queue_stored (h : f "pending_receipts" (pendingReceiptKey d r.messageId) = false) :
    (s.queue f d r).storage.pendingReceipts = s.storage.pendingReceipts.insert (pendingReceiptKey d r.messageId) r ∧
      (s.queue f d r).onTheWay = s.onTheWay ∧ (s.queue f d r).sent = s.sent ∧
      (s.queue f d r).queued = s.queued ++ [(d, r)] := by
  unfold queue ReceiptStorage.storePendingReceipt
  rw [treeInsert_ok h]
  exact ⟨rfl, rfl, rfl, rfl⟩

theorem kept_queue_iff (hf : s.Filed) (hs : s.Unlost) : s.Kept (.queue f d r) ↔ s.Careful (.queue f d r) := by
  unfold Kept
  show ((s.queue f d r).Unlost ∧ s.Undowngraded (s.queue f d r)) ↔ _
  by_cases hfault : f "pending_receipts" (pendingReceiptKey d r.messageId) = true
  · rw [queue_failed hfault]
    refine iff_of_true ⟨hs, fun k a b ha hb _ hread => ?_⟩ fun h => by rw [hfault] at h; cases h
    rw [ha] at hb
    rw [← Option.some.inj hb, hread]
    decide
  rw [Bool.not_eq_true] at hfault
  obtain ⟨htree, hway, hsent, hqueued⟩ := queue_stored (s := s) hfault
  have haway {d' : Did} {r' : ReadReceipt} : (s.queue f d r).Away d' r' ↔ s.Away d' r' := by
    unfold Away
    rw [hway, hsent]
  have hget (k : String) : (s.queue f d r).storage.pendingReceipts[k]? =
      if pendingReceiptKey d r.messageId = k then some r else s.storage.pendingReceipts[k]? := by
    rw [htree, get_insert]
  constructor
  · rintro ⟨hun, hdown⟩ - old hold
    refine ⟨fun hm hread => hdown _ old r hold (by rw [hget, if_pos rfl]) hm hread, fun did hq hkey => ?_⟩
    have hsafe := hun did old (by rw [hqueued]; exact List.mem_append_left _ hq)
    obtain ⟨r1, hc, hw | ha⟩ := hsafe
    · unfold Waiting at hw
      rw [hget, hc.messageId, if_pos hkey.symm] at hw
      exact Or.inl (Option.some.inj hw ▸ hc)
    · exact Or.inr ⟨r1, hc, haway.1 ha⟩
  · intro h
    refine ⟨fun did r0 hq => ?_, fun k a b ha hb hm hread => ?_⟩
    · rw [hqueued] at hq
      rcases List.mem_append.1 hq with hq | hq
      · refine (hs did r0 hq).mono (fun r1 _ ha => safe_of_away (haway.2 ha)) fun r1 hc hw => ?_
        by_cases hkey : pendingReceiptKey d r.messageId = pendingReceiptKey did r1.messageId
        · have hold : s.storage.pendingReceipts[pendingReceiptKey d r.messageId]? = some r1 := by
            rw [hkey]
            exact hw
          rcases (h hfault r1 hold).2 did (hf.queued hw) hkey.symm with hcov | hsafe
          · have hd : d = did := by rwa [hcov.messageId, pendingReceiptKey_inj] at hkey
            exact ⟨r, hcov, Or.inl (by subst hd; unfold Waiting; rw [hget, if_pos rfl])⟩
          · exact (hsafe.mono fun _ => haway.2).safe
        · refine safe_of_waiting ?_
          unfold Waiting
          rw [hget, if_neg hkey]
          exact hw
      · obtain ⟨rfl, rfl⟩ := Prod.mk.inj (List.mem_singleton.1 hq)
        exact safe_of_waiting (by unfold Waiting; rw [hget, if_pos rfl])
    · rw [hget] at hb
      split_ifs at hb with hk
      · obtain rfl := Option.some.inj hb
        exact (h hfault a (by rw [hk]; exact ha)).1 hm hread
      · rw [ha] at hb
        rw [← Option.some.inj hb, hread]
        decide

/-! Flushing -/

theorem get_flush (k : String) : (s.flush f did).storage.pendingReceipts[k]? =
    if k ∈ s.drained f did then none else s.storage.pendingReceipts[k]? := by
  have htree : (s.flush f did).storage.pendingReceipts =
      (s.storage.drainPendingReceipts f did).2.pendingReceipts := by
    unfold flush
    split <;> simp_all
  rw [htree]
  exact get_treeRemoveAll

theorem flush_rest : (s.flush f did).sent = s.sent ∧ (s.flush f did).queued = s.queued := by
  unfold flush
  split <;> exact ⟨rfl, rfl⟩

theorem drain_ok (h : ∀ x ∈ scanPrefix (did ++ ":") s.storage.pendingReceipts, f "pending_receipts" x.1 = false) :
    (s.storage.drainPendingReceipts f did).1 =
      .ok ((scanPrefix (did ++ ":") s.storage.pendingReceipts).map (·.2)) := by
  unfold ReceiptStorage.drainPendingReceipts
  dsimp only
  rw [treeRemoveAll_ok_iff.2 (List.forall_mem_map.2 h)]
  rfl

theorem drain_error
    (h : ¬ ∀ x ∈ scanPrefix (did ++ ":") s.storage.pendingReceipts, f "pending_receipts" x.1 = false) :
    ∃ e, (s.storage.drainPendingReceipts f did).1 = .error e := by
  unfold ReceiptStorage.drainPendingReceipts
  dsimp only
  cases hw : (treeRemoveAll f "pending_receipts"
    ((scanPrefix (did ++ ":") s.storage.pendingReceipts).map (·.1)) s.storage.pendingReceipts).1 with
  | error e => exact ⟨e, rfl⟩
  | ok u => exact (h (List.forall_mem_map.1 (treeRemoveAll_ok_iff.1 hw))).elim

/-- Only a flush whose removals all succeed hands anything on, and it hands on all it read. -/
theorem mem_flush_onTheWay {e : Did × ReadReceipt} : e ∈ (s.flush f did).onTheWay ↔ e ∈ s.onTheWay ∨
    ((∀ x ∈ scanPrefix (did ++ ":") s.storage.pendingReceipts, f "pending_receipts" x.1 = false) ∧ e.1 = did ∧
      ∃ x ∈ scanPrefix (did ++ ":") s.storage.pendingReceipts, x.2 = e.2) := by
  obtain ⟨d, r⟩ := e
  by_cases hall : ∀ x ∈ scanPrefix (did ++ ":") s.storage.pendingReceipts, f "pending_receipts" x.1 = false
  · have hway : (s.flush f did).onTheWay = s.onTheWay ++
        ((scanPrefix (did ++ ":") s.storage.pendingReceipts).map (·.2)).map fun r => (did, r) := by
      have hok := drain_ok hall
      unfold flush
      split <;> simp_all
    rw [hway, List.mem_append, List.map_map, List.mem_map]
    refine or_congr_right ⟨?_, ?_⟩
    · rintro ⟨x, hx, heq⟩
      obtain ⟨rfl, rfl⟩ := Prod.mk.inj heq
      exact ⟨hall, rfl, x, hx, rfl⟩
    · rintro ⟨-, hd, x, hx, hr⟩
      exact ⟨x, hx, Prod.ext hd.symm hr⟩
  · have hway : (s.flush f did).onTheWay = s.onTheWay := by
      obtain ⟨e, he⟩ := drain_error hall
      unfold flush
      split <;> simp_all
    rw [hway]
    exact ⟨Or.inl, fun h => h.resolve_right fun h => hall h.1⟩

/-- Nothing is put in the queue. -/
theorem undowngraded_of_sub (h : ∀ (k : String) r, s'.storage.pendingReceipts[k]? = some r →
    s.storage.pendingReceipts[k]? = some r) : s.Undowngraded s' := by
  intro k a b ha hb _ hread
  rw [h k b hb] at ha
  rw [Option.some.inj ha, hread]
  decide

theorem kept_flush_iff (hf : s.Filed) (hs : s.Unlost) : s.Kept (.flush f did) ↔ s.Careful (.flush f did) := by
  unfold Kept
  show ((s.flush f did).Unlost ∧ s.Undowngraded (s.flush f did)) ↔ _
  have hdown : s.Undowngraded (s.flush f did) := undowngraded_of_sub fun k r hr => by
    rw [get_flush] at hr
    split_ifs at hr
    exact hr
  rw [and_iff_left hdown]
  have haway {d' : Did} {r' : ReadReceipt} (h : s.Away d' r') : (s.flush f did).Away d' r' := by
    rcases h with h | h
    · exact Or.inl (mem_flush_onTheWay.2 (Or.inl h))
    · exact Or.inr (by rw [flush_rest.1]; exact h)
  constructor
  · intro hun targetDid r hq hw hdrained
    obtain ⟨r1, hc, hw1 | ha | hsent⟩ := hun targetDid r (by rw [flush_rest.2]; exact hq)
    · unfold Waiting at hw1
      rw [get_flush, hc.messageId, if_pos hdrained] at hw1
      cases hw1
    · rcases mem_flush_onTheWay.1 ha with ha | ⟨hok, hd, -⟩
      · exact Or.inr ⟨r1, hc, Or.inl ha⟩
      · exact Or.inl ⟨hd, hok⟩
    · rw [flush_rest.1] at hsent
      exact Or.inr ⟨r1, hc, Or.inr hsent⟩
  · intro h d r hq
    rw [flush_rest.2] at hq
    refine (hs d r hq).mono (fun r1 _ ha => safe_of_away (haway ha)) fun r1 _ hw => ?_
    by_cases hdrained : pendingReceiptKey d r1.messageId ∈ s.drained f did
    · rcases h d r1 (hf.queued hw) hw hdrained with ⟨hd, hok⟩ | hsafe
      · obtain ⟨x, hx, hkey⟩ := List.mem_map.1 (List.takeWhile_subset _ hdrained)
        have hpre : Text.HasPrefix (did ++ ":") (pendingReceiptKey d r1.messageId) := hkey ▸ (mem_scanPrefix.1 hx).2
        exact safe_of_away (Or.inl (mem_flush_onTheWay.2
          (Or.inr ⟨hok, hd, (pendingReceiptKey d r1.messageId, r1), mem_scanPrefix.2 ⟨hw, hpre⟩, rfl⟩)))
      · exact (hsafe.mono fun _ => haway).safe
    · refine safe_of_waiting ?_
      unfold Waiting
      rw [get_flush, if_neg hdrained]
      exact hw

/-! What becomes of what is on its way -/

/-- Where a step takes entries off the way and nothing else, it is those that matter. -/
theorem unlost_iff_of_lost {way : List (Did × ReadReceipt)} (hs : s.Unlost) :
    ({ s with onTheWay := way } : ReceiptOutbox).Unlost ↔ ∀ d r, (d, r) ∈ s.onTheWay → (d, r) ∉ way →
      ∀ r0, (d, r0) ∈ s.queued → r.Covers r0 → ({ s with onTheWay := way } : ReceiptOutbox).Safe d r0 := by
  constructor
  · intro hun d r _ _ r0 hq _
    exact hun d r0 hq
  · intro h d r0 hq
    obtain ⟨r, hc, hw | ha | hsent⟩ := hs d r0 hq
    · exact ⟨r, hc, Or.inl hw⟩
    · by_cases hway : (d, r) ∈ way
      · exact ⟨r, hc, Or.inr (Or.inl hway)⟩
      · exact h d r ha hway r0 hq hc
    · exact ⟨r, hc, Or.inr (Or.inr hsent)⟩

theorem kept_stop_iff (hs : s.Unlost) : s.Kept .stop ↔ s.Careful .stop := by
  have hdown : s.Undowngraded (s.step .stop) := undowngraded_of_sub fun k r hr => hr
  unfold Kept
  rw [and_iff_left hdown]
  refine (unlost_iff_of_lost hs).trans ?_
  exact ⟨fun h d r hr r0 hq hc => h d r hr (by simp) r0 hq hc, fun h d r hr _ r0 hq hc => h d r hr r0 hq hc⟩

theorem kept_attempt (hs : s.Unlost) : s.Kept (.attempt d r) := by
  refine ⟨fun d' r0 hq => ?_, undowngraded_of_sub fun k r hr => hr⟩
  refine (hs d' r0 hq).mono (fun r1 _ ha => safe_of_away ?_) fun r1 _ hw => safe_of_waiting hw
  exact ha.imp_left fun h => List.mem_append_left _ h

theorem kept_outcome_iff {i : ℕ} {delivered : Bool} (hs : s.Unlost) :
    s.Kept (.outcome i delivered) ↔ s.Careful (.outcome i delivered) := by
  unfold Kept
  have hstore : (s.step (.outcome i delivered)).storage = s.storage := by
    show (s.outcome i delivered).storage = s.storage
    unfold outcome
    split <;> rfl
  rw [and_iff_left (undowngraded_of_sub fun k r hr => by rwa [hstore] at hr)]
  show (s.outcome i delivered).Unlost ↔ _
  unfold outcome
  cases hi : s.onTheWay[i]? with
  | none => exact iff_of_true hs fun _ targetDid r h => by rw [hi] at h; cases h
  | some entry =>
    obtain ⟨d, r⟩ := entry
    cases delivered with
    | true =>
      refine iff_of_true (fun d' r0 hq => ?_) fun h => by cases h
      refine (hs d' r0 hq).mono (fun r1 _ ha => safe_of_away ?_) fun r1 _ hw => safe_of_waiting hw
      rcases ha with ha | ha
      · by_cases heq : (d', r1) = (d, r)
        · exact Or.inr (List.mem_append_right _ (List.mem_singleton.2 heq))
        · exact Or.inl (StepSystem.mem_eraseIdx_of_ne hi ha heq)
      · exact Or.inr (List.mem_append_left _ ha)
    | false =>
      refine (unlost_iff_of_lost hs).trans ?_
      constructor
      · intro h _ d' r' hi' r0 hq hc
        by_cases hway : (d', r') ∈ s.onTheWay.eraseIdx i
        · exact ⟨r', hc, Or.inr (Or.inl hway)⟩
        · exact h d' r' (List.mem_of_getElem? hi') hway r0 hq hc
      · intro h d' r' hr hway r0 hq hc
        have heq : (d', r') = (d, r) := by
          by_contra hne
          exact hway (StepSystem.mem_eraseIdx_of_ne hi hr hne)
        obtain ⟨rfl, rfl⟩ := Prod.mk.inj heq
        exact h rfl d' r' hi r0 hq hc

/-! Runs -/

theorem filed_step (h : s.Filed) (e : OutboxStep) : (s.step e).Filed := by
  cases e with
  | queue f d r =>
    show (s.queue f d r).Filed
    by_cases hfault : f "pending_receipts" (pendingReceiptKey d r.messageId) = true
    · rw [queue_failed hfault]
      exact h
    · rw [Bool.not_eq_true] at hfault
      obtain ⟨htree, -, -, hqueued⟩ := queue_stored (s := s) hfault
      intro k x hx
      rw [htree, get_insert] at hx
      rw [hqueued]
      split_ifs at hx with hk
      · obtain rfl := Option.some.inj hx
        exact ⟨d, by simp, hk⟩
      · obtain ⟨d', hq, hkey⟩ := h k x hx
        exact ⟨d', List.mem_append_left _ hq, hkey⟩
  | attempt d r => exact h
  | flush f did =>
    intro k x hx
    rw [show (s.step (.flush f did)).queued = s.queued from flush_rest.2]
    rw [show (s.step (.flush f did)).storage.pendingReceipts[k]? = _ from get_flush k] at hx
    split_ifs at hx
    exact h k x hx
  | outcome i delivered =>
    show (s.outcome i delivered).Filed
    unfold outcome
    split <;> exact h
  | stop => exact h

theorem kept_iff (hf : s.Filed) (hs : s.Unlost) (e : OutboxStep) : s.Kept e ↔ s.Careful e := by
  cases e with
  | queue f d r => exact kept_queue_iff hf hs
  | attempt d r => exact iff_of_true (kept_attempt hs) trivial
  | flush f did => exact kept_flush_iff hf hs
  | outcome i delivered => exact kept_outcome_iff hs
  | stop => exact kept_stop_iff hs

end ReceiptOutbox
namespace ReceiptDelivery

def receipt (status timestamp : ℤ) : ReadReceipt := ⟨"x", "did:a", status, timestamp, []⟩

/-- The peer connects, the receipt that waits for it is drained, and the send fails. -/
def lossy : List OutboxStep :=
  [.queue noFaults "did:b" (receipt receiptRead 1), .flush noFaults "did:b", .outcome 0 false]

end ReceiptDelivery
end Variance
