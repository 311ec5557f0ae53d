import Variance.Sanity.Trees
import Variance.Spec.DmQueue

/-! Accepted direct messages and where they are: in the queue, in flight or acknowledged along a run if and only if
each step is careful with the place that it takes a message from. -/

namespace Variance

namespace LocalMessageStorage
variable {s : LocalMessageStorage} {f : Faults} {k : String}

theorem get_storePending {peerDid : Did} {m : DirectMessage} :
    (s.storePendingMessage f peerDid m).2.pendingMessages[k]? =
      if pendingKey peerDid m.id = k ∧ f "pending_messages" (pendingKey peerDid m.id) = false then some m
      else s.pendingMessages[k]? := by
  unfold storePendingMessage
  dsimp only
  by_cases hf : f "pending_messages" (pendingKey peerDid m.id) = true
  · rw [treeInsert_error hf]
    simp [hf]
  · rw [Bool.not_eq_true] at hf
    rw [treeInsert_ok hf]
    simp [hf]

theorem filter_removable {a : String} : (some a).filter (fun k => f "pending_messages" k = false) = some k ↔
    a = k ∧ f "pending_messages" a = false := by
  rw [Option.filter_eq_some_iff, Option.some.injEq, decide_eq_true_eq]
  refine and_congr_right fun h => ?_
  rw [h]

/-- One key goes, if the tree lets it. -/
theorem get_deletePending {messageId : String} : (s.deletePendingMessage f messageId).2.pendingMessages[k]? =
    if s.deletedPendingKey f messageId = some k then none else s.pendingMessages[k]? := by
  unfold deletePendingMessage deletedPendingKey
  cases (s.messageIndex[indexKey messageId]?).bind indexedKey with
  | some fullKey =>
    dsimp only [Option.some_or]
    by_cases hf : f "pending_messages" fullKey = true
    · have hnot : ¬ (some fullKey).filter (fun k => f "pending_messages" k = false) = some k := by
        rw [filter_removable, hf]
        simp
      rw [treeRemove, if_pos hf]
      exact (if_neg hnot).symm
    · rw [Bool.not_eq_true] at hf
      rw [treeRemove_ok hf]
      dsimp only
      simp only [get_erase, filter_removable, hf, and_true]
  | none =>
    dsimp only [Option.none_or]
    cases s.pendingMessages.toList.find? fun e => Text.HasSuffix (":" ++ messageId) e.1 with
    | none => simp
    | some e =>
      dsimp only [Option.map_some]
      simp only [get_treeRemove, filter_removable]

end LocalMessageStorage

namespace DmOutbox
variable {s s' : DmOutbox} {d : Did} {m : DirectMessage} {f : Faults} {i : ℕ}

/-! Steps that move no message -/

/-- What is held is so when requests are only added. -/
theorem Held.sending (h : s.Held d m) (hs : s'.storage = s.storage) (hp : s.pendingDmSends ⊆ s'.pendingDmSends)
    (ha : s'.acknowledged = s.acknowledged) : s'.Held d m := by
  unfold Held Queued Acknowledged at *
  rw [hs, ha]
  exact h.imp_right (Or.imp_left fun hm => hp hm)

theorem kept_of_sending {e : DmStep} (hc : s.Custody) (hs : (s.step e).storage = s.storage)
    (hp : s.pendingDmSends ⊆ (s.step e).pendingDmSends) (ha : (s.step e).acknowledged = s.acknowledged)
    (hfailed : e.failed = none)
    (hnew : ∀ d m, (d, m) ∈ (s.step e).accepted → (d, m) ∈ s.accepted ∨ (s.step e).Held d m) : s.Kept e where
  held d m hm := (hnew d m hm).elim (fun h => (hc d m h).sending hs hp ha) id
  leaves d m _ hq := Or.inl (by unfold Queued at *; rwa [hs])
  returns i hi := by
    rw [hfailed] at hi
    cases hi

theorem kept_send_iff {reachable : Bool} (hc : s.Custody) :
    s.Kept (.send d m reachable) ↔ s.Careful (.send d m reachable) := by
  by_cases hself : some d = s.localDid
  · have hstep : s.step (.send d m reachable) = { s with accepted := s.accepted ++ [(d, m)] } := by
      simp [step, sendDmToPeer, sendDirectMessage, hself]
    constructor
    · intro h _
      have := h.held d m (by rw [hstep]; simp)
      rwa [hstep] at this
    · intro h
      refine kept_of_sending hc (by rw [hstep]) (by rw [hstep]; exact List.Subset.refl _) (by rw [hstep]) rfl
        fun d' m' hm => ?_
      rw [hstep] at hm ⊢
      rcases List.mem_append.1 hm with hm | hm
      · exact Or.inl hm
      · obtain ⟨rfl, rfl⟩ := Prod.mk.inj (List.mem_singleton.1 hm)
        exact Or.inr (h hself)
  · refine iff_of_true ?_ fun h => absurd h hself
    cases reachable with
    | true =>
      have hstep : s.step (.send d m true) = { s with
          pendingDmSends := s.pendingDmSends ++ [(m.id, d)], accepted := s.accepted ++ [(d, m)] } := by
        simp [step, sendDmToPeer, sendDirectMessage, hself]
      refine kept_of_sending hc (by rw [hstep]) (by rw [hstep]; exact List.subset_append_left _ _) (by rw [hstep]) rfl
        fun d' m' hm => ?_
      rw [hstep] at hm ⊢
      rcases List.mem_append.1 hm with hm | hm
      · exact Or.inl hm
      · obtain ⟨rfl, rfl⟩ := Prod.mk.inj (List.mem_singleton.1 hm)
        exact Or.inr (Or.inr (Or.inl (by simp)))
    | false =>
      have hstep : s.step (.send d m false) = { s with queueing := s.queueing ++ [(d, m)] } := by
        simp [step, sendDmToPeer, sendDirectMessage, hself]
      exact kept_of_sending hc (by rw [hstep]) (by rw [hstep]; exact List.Subset.refl _) (by rw [hstep]) rfl
        fun d' m' hm => Or.inl (by rw [hstep] at hm; exact hm)

theorem kept_flushNext {reachable : Bool} (hc : s.Custody) : s.Kept (.flushNext i reachable) := by
  have hstep : (s.step (.flushNext i reachable)).storage = s.storage ∧
      s.pendingDmSends ⊆ (s.step (.flushNext i reachable)).pendingDmSends ∧
      (s.step (.flushNext i reachable)).acknowledged = s.acknowledged ∧
      (s.step (.flushNext i reachable)).accepted = s.accepted := by
    show (s.flushNext i reachable).storage = s.storage ∧
      s.pendingDmSends ⊆ (s.flushNext i reachable).pendingDmSends ∧
      (s.flushNext i reachable).acknowledged = s.acknowledged ∧ (s.flushNext i reachable).accepted = s.accepted
    unfold flushNext sendDirectMessage
    split
    · split_ifs <;> simp
    · simp
  obtain ⟨hs, hp, ha, haccepted⟩ := hstep
  exact kept_of_sending hc hs hp ha rfl fun d m hm => Or.inl (by rwa [haccepted] at hm)

/-! Steps that move messages in the queue -/

/-- What leaves the queue is acknowledged, and the rest is where it was. -/
theorem kept_of_moving {e : DmStep} (hc : s.Custody) (hp : (s.step e).pendingDmSends = s.pendingDmSends)
    (ha : (s.step e).acknowledged = s.acknowledged) (hfailed : e.failed = none)
    (hmoved : ∀ d m, (d, m) ∈ s.accepted → s.Queued d m → (s.step e).Queued d m ∨ s.Acknowledged d m)
    (hnew : ∀ d m, (d, m) ∈ (s.step e).accepted → (d, m) ∈ s.accepted ∨ (s.step e).Held d m) : s.Kept e := by
  have hack {d : Did} {m : DirectMessage} (h : s.Acknowledged d m) : (s.step e).Acknowledged d m := by
    unfold Acknowledged
    rwa [ha]
  refine ⟨fun d m hm => (hnew d m hm).elim (fun hold => ?_) id, fun d m hm hq => (hmoved d m hm hq).imp_right hack,
    fun i hi => ?_⟩
  · rcases hc d m hold with hq | hf | hd
    · exact (hmoved d m hold hq).imp_right fun h => Or.inr (hack h)
    · exact Or.inr (Or.inl (by rwa [hp]))
    · exact Or.inr (Or.inr (hack hd))
  · rw [hfailed] at hi
    cases hi

theorem kept_queue_iff (hc : s.Custody) : s.Kept (.queue f i) ↔ s.Careful (.queue f i) := by
  cases hi : s.queueing[i]? with
  | none =>
    have hstep : s.step (.queue f i) = s := by simp [step, queuePendingMessage, hi]
    refine iff_of_true ?_ fun d m h => by rw [hi] at h; cases h
    exact kept_of_sending hc (by rw [hstep]) (by rw [hstep]; exact List.Subset.refl _) (by rw [hstep]) rfl
      fun d m hm => Or.inl (by rwa [hstep] at hm)
  | some entry =>
    obtain ⟨d, m⟩ := entry
    have hstep : s.step (.queue f i) = { s with
        queueing := s.queueing.eraseIdx i
        storage := (s.storage.storePendingMessage f d m).2
        accepted := s.accepted ++ [(d, m)] } := by simp [step, queuePendingMessage, hi]
    have hp : (s.step (.queue f i)).pendingDmSends = s.pendingDmSends := by rw [hstep]
    have ha : (s.step (.queue f i)).acknowledged = s.acknowledged := by rw [hstep]
    have hmem (x : Did × DirectMessage) : x ∈ (s.step (.queue f i)).accepted ↔ x ∈ s.accepted ∨ x = (d, m) := by
      rw [hstep]
      simp
    -- what is queued after it
    have hqueued (d' : Did) (m' : DirectMessage) : (s.step (.queue f i)).Queued d' m' ↔
        if LocalMessageStorage.pendingKey d m.id = LocalMessageStorage.pendingKey d' m'.id ∧
          f "pending_messages" (LocalMessageStorage.pendingKey d m.id) = false then m = m' else s.Queued d' m' := by
      unfold Queued
      rw [hstep]
      dsimp only
      rw [LocalMessageStorage.get_storePending]
      split_ifs
      · exact Option.some_inj
      · exact Iff.rfl
    cases hf : f "pending_messages" (LocalMessageStorage.pendingKey d m.id) with
    | true =>
      have hsame (d' : Did) (m' : DirectMessage) : (s.step (.queue f i)).Queued d' m' ↔ s.Queued d' m' := by
        rw [hqueued, if_neg]
        rw [hf]
        simp
      have hheld (d' : Did) (m' : DirectMessage) : (s.step (.queue f i)).Held d' m' ↔ s.Held d' m' := by
        unfold Held Acknowledged
        rw [hsame, hp, ha]
      constructor
      · intro h d' m' hi'
        obtain ⟨rfl, rfl⟩ := Prod.mk.inj (Option.some.inj (hi.symm.trans hi'))
        rw [if_pos hf]
        exact (hheld d m).1 (h.held d m ((hmem _).2 (Or.inr rfl)))
      · intro h
        have hm := h d m hi
        rw [if_pos hf] at hm
        refine kept_of_moving hc hp ha rfl (fun d' m' _ hq => Or.inl ((hsame d' m').2 hq)) fun d' m' hm' => ?_
        refine ((hmem _).1 hm').imp_right fun heq => ?_
        obtain ⟨rfl, rfl⟩ := Prod.mk.inj heq
        exact (hheld d' m').2 hm
    | false =>
      constructor
      · intro h d' m' hi'
        obtain ⟨rfl, rfl⟩ := Prod.mk.inj (Option.some.inj (hi.symm.trans hi'))
        rw [if_neg (by rw [hf]; simp)]
        intro d1 m1 hm1 hq hkey
        refine (h.leaves d1 m1 hm1 hq).imp (fun hq' => ?_) fun hd => ?_
        · rw [hqueued, if_pos ⟨hkey.symm, hf⟩] at hq'
          exact hq'.symm
        · unfold Acknowledged at hd ⊢
          rwa [ha] at hd
      · intro h
        have hplace := h d m hi
        rw [if_neg (by rw [hf]; simp)] at hplace
        refine kept_of_moving hc hp ha rfl (fun d' m' hm' hq => ?_) fun d' m' hm' => ?_
        · rw [hqueued]
          split_ifs with hkey
          · exact (hplace d' m' hm' hq hkey.1.symm).imp_left Eq.symm
          · exact Or.inl hq
        · refine ((hmem _).1 hm').imp_right fun heq => ?_
          obtain ⟨rfl, rfl⟩ := Prod.mk.inj heq
          exact Or.inl ((hqueued d' m').2 (by rw [if_pos ⟨rfl, hf⟩]))

theorem kept_markSent_iff (hc : s.Custody) : s.Kept (.markSent f i) ↔ s.Careful (.markSent f i) := by
  by_cases hsent : ∃ flush messageId, s.flushes[i]? = some flush ∧ flush.sent = some messageId
  · obtain ⟨⟨did, rest, sent⟩, messageId, hi, hsent⟩ := hsent
    obtain rfl : sent = some messageId := hsent
    have hstep : s.step (.markSent f i) = { s with
        flushes := s.flushes.set i ⟨did, rest, none⟩
        storage := (s.storage.deletePendingMessage f messageId).2 } := by simp [step, markPendingSent, hi]
    have hp : (s.step (.markSent f i)).pendingDmSends = s.pendingDmSends := by rw [hstep]
    have ha : (s.step (.markSent f i)).acknowledged = s.acknowledged := by rw [hstep]
    have haccepted : (s.step (.markSent f i)).accepted = s.accepted := by rw [hstep]
    have hqueued (d' : Did) (m' : DirectMessage) : (s.step (.markSent f i)).Queued d' m' ↔
        s.Queued d' m' ∧ s.storage.deletedPendingKey f messageId ≠ some (LocalMessageStorage.pendingKey d' m'.id) := by
      unfold Queued
      rw [hstep]
      dsimp only
      rw [LocalMessageStorage.get_deletePending]
      split_ifs with hkey
      · simp [hkey]
      · simp [hkey]
    constructor
    · intro h fl id hfl hid d' m' hm' hq hkey
      obtain rfl := Option.some.inj (hi.symm.trans hfl)
      obtain rfl := Option.some.inj hid
      rcases h.leaves d' m' hm' hq with hq' | hd
      · exact absurd hkey ((hqueued d' m').1 hq').2
      · unfold Acknowledged at hd ⊢
        rwa [ha] at hd
    · intro h
      refine kept_of_moving hc hp ha rfl (fun d' m' hm' hq => ?_) fun d' m' hm' => Or.inl (by rwa [haccepted] at hm')
      by_cases hkey : s.storage.deletedPendingKey f messageId = some (LocalMessageStorage.pendingKey d' m'.id)
      · exact Or.inr (h _ messageId hi rfl d' m' hm' hq hkey)
      · exact Or.inl ((hqueued d' m').2 ⟨hq, hkey⟩)
  · have hstep : s.step (.markSent f i) = s := by
      show s.markPendingSent f i = s
      unfold markPendingSent
      split
      · next did rest messageId hi => exact absurd ⟨_, messageId, hi, rfl⟩ hsent
      · rfl
    refine iff_of_true ?_ fun fl id hfl hid => absurd ⟨fl, id, hfl, hid⟩ hsent
    exact kept_of_sending hc (by rw [hstep]) (by rw [hstep]; exact List.Subset.refl _) (by rw [hstep]) rfl
      fun d m hm => Or.inl (by rwa [hstep] at hm)

/-! The end of a request -/

theorem kept_of_same {e : DmStep} (hc : s.Custody) (hstep : s.step e = s) (hq : ∀ i, e.failed = some i →
    ∀ d m, (d, m) ∈ s.accepted → s.pendingDmSends[i]? = some (m.id, d) → s.Queued d m) : s.Kept e :=
  ⟨by rwa [hstep], fun _ _ _ h => Or.inl (by rwa [hstep]), by rwa [hstep]⟩

theorem kept_acknowledged {messageId : String} (hc : s.Custody) : s.Kept (.response i messageId none) := by
  cases hi : s.pendingDmSends[i]? with
  | none =>
    refine kept_of_same hc ?_ fun _ h => by cases h
    simp [step, response, hi]
  | some entry =>
    have hstep : s.step (.response i messageId none) = { s with
        pendingDmSends := s.pendingDmSends.eraseIdx i, acknowledged := s.acknowledged ++ [entry] } := by
      simp [step, response, hi]
    refine ⟨fun d m hm => ?_, fun d m _ hq => Or.inl (by unfold Queued at *; rwa [hstep]), fun _ h => by cases h⟩
    rw [hstep] at hm ⊢
    rcases hc d m hm with hq | hf | hd
    · exact Or.inl hq
    · by_cases he : (m.id, d) = entry
      · exact Or.inr (Or.inr (List.mem_append_right _ (List.mem_singleton.2 he)))
      · exact Or.inr (Or.inl (StepSystem.mem_eraseIdx_of_ne hi hf he))
    · exact Or.inr (Or.inr (List.mem_append_left _ hd))

/-- Without an acknowledgement the message has to be in the queue by then. -/
theorem kept_failed_iff {e : DmStep} {entry : String × Did} (hc : s.Custody) (hi : s.pendingDmSends[i]? = some entry)
    (hfailed : e.failed = some i) (hs : (s.step e).storage = s.storage)
    (hp : (s.step e).pendingDmSends = s.pendingDmSends.eraseIdx i) (ha : (s.step e).acknowledged = s.acknowledged)
    (haccepted : (s.step e).accepted = s.accepted) :
    s.Kept e ↔ ∀ d m, (d, m) ∈ s.accepted → s.pendingDmSends[i]? = some (m.id, d) → s.Queued d m := by
  have hqueued (d : Did) (m : DirectMessage) : (s.step e).Queued d m ↔ s.Queued d m := by
    unfold Queued
    rw [hs]
  refine ⟨fun h d m hm hreq => (hqueued d m).1 (h.returns i hfailed d m hm hreq), fun h => ?_⟩
  refine ⟨fun d m hm => ?_, fun d m _ hq => Or.inl ((hqueued d m).2 hq), fun j hj d m hm hreq => ?_⟩
  · rw [haccepted] at hm
    rcases hc d m hm with hq | hf | hd
    · exact Or.inl ((hqueued d m).2 hq)
    · by_cases he : (m.id, d) = entry
      · exact Or.inl ((hqueued d m).2 (h d m hm (he ▸ hi)))
      · refine Or.inr (Or.inl ?_)
        rw [hp]
        exact StepSystem.mem_eraseIdx_of_ne hi hf he
    · refine Or.inr (Or.inr ?_)
      unfold Acknowledged
      rwa [ha]
  · obtain rfl : i = j := Option.some.inj (hfailed.symm.trans hj)
    exact (hqueued d m).2 (h d m hm hreq)

theorem kept_nack_iff {messageId error : String} (hc : s.Custody) :
    s.Kept (.response i messageId (some error)) ↔ s.Careful (.response i messageId (some error)) := by
  cases hi : s.pendingDmSends[i]? with
  | none =>
    refine iff_of_true (kept_of_same hc (by simp [step, response, hi]) fun j hj => ?_) fun d m _ h => ?_
    · obtain rfl : i = j := Option.some.inj hj
      rw [hi]
      exact fun _ _ _ h => by cases h
    · rw [hi] at h
      cases h
  | some entry =>
    refine kept_failed_iff hc hi rfl ?_ ?_ ?_ ?_
    all_goals simp [step, response, hi]

theorem kept_outboundFailure_iff (hc : s.Custody) : s.Kept (.outboundFailure i) ↔ s.Careful (.outboundFailure i) := by
  cases hi : s.pendingDmSends[i]? with
  | none =>
    refine iff_of_true (kept_of_same hc (by simp [step, outboundFailure, hi]) fun j hj => ?_) fun d m _ h => ?_
    · obtain rfl : i = j := Option.some.inj hj
      rw [hi]
      exact fun _ _ _ h => by cases h
    · rw [hi] at h
      cases h
  | some entry =>
    refine kept_failed_iff hc hi rfl ?_ ?_ ?_ ?_
    all_goals simp [step, outboundFailure, hi]

/-! Runs -/

theorem kept_iff (hc : s.Custody) : ∀ e, s.Kept e ↔ s.Careful e
  | .send _ _ _ => kept_send_iff hc
  | .queue _ _ => kept_queue_iff hc
  | .flush _ => iff_of_true (kept_of_sending hc rfl (List.Subset.refl _) rfl rfl fun _ _ hm => Or.inl hm) trivial
  | .flushNext _ _ => iff_of_true (kept_flushNext hc) trivial
  | .markSent _ _ => kept_markSent_iff hc
  | .response _ _ none => iff_of_true (kept_acknowledged hc) trivial
  | .response _ _ (some _) => kept_nack_iff hc
  | .outboundFailure _ => kept_outboundFailure_iff hc

/-- For every sequence of steps, from whatever was in the queue: every accepted message is held after each of them,
leaves the queue only when it is acknowledged and is back in it when its request fails, if and only if each step was
careful. -/
theorem dms_kept (localDid : Option Did) (storage : LocalMessageStorage) (es : List DmStep) :
    StepSystem.Guarded (dmOutboxSys localDid storage) Kept (start localDid storage) es ↔
      StepSystem.Guarded (dmOutboxSys localDid storage) Careful (start localDid storage) es :=
  StepSystem.guarded_iff (M := dmOutboxSys localDid storage) (I := Custody) (fun _ e hc => kept_iff hc e)
    (fun _ e hc hg => ((kept_iff hc e).2 hg).held) (fun _ _ hm => absurd hm List.not_mem_nil) es

end DmOutbox
namespace DmCustody

def message : DirectMessage :=
  { id := "x", senderDid := "did:a", recipientDid := "did:b", ciphertext := [], olmMessageType := 1, signature := []
    timestamp := 1, type := 1, replyTo := none, senderIdentityKey := none }

/-- The peer is connected, the node takes the message, and the request fails. -/
def dropped : List DmStep := [.send "did:b" message true, .outboundFailure 0]

/-- The user is told that it is pending, and it is in no queue. -/
theorem failed_and_lost : ¬ ∀ (localDid : Option Did) (storage : LocalMessageStorage) (es : List DmStep),
    StepSystem.Guarded (dmOutboxSys localDid storage) DmOutbox.Kept (.start localDid storage) es := by
  intro h
  have hqueued : (dropped.foldl DmOutbox.step (.start (some "did:a") .empty)).Queued "did:b" message :=
    (h (some "did:a") .empty dropped).2.1.returns 0 rfl "did:b" message (by decide +kernel) (by decide +kernel)
  have hrun : (dropped.foldl DmOutbox.step (.start (some "did:a") .empty)).storage.pendingMessages.toList = [] ∧
      (dropped.foldl DmOutbox.step (.start (some "did:a") .empty)).notices = [.statusChanged "x" "pending"] := by
    decide +kernel
  have hmem := mem_iter (dropped.foldl DmOutbox.step (.start (some "did:a") .empty)).storage.pendingMessages
    (e := (LocalMessageStorage.pendingKey "did:b" "x", message))
  rw [hrun.1] at hmem
  exact absurd (hmem.2 hqueued) List.not_mem_nil

end DmCustody
end Variance
