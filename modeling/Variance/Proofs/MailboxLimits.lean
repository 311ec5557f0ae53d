import Variance.Lib.Run
import Variance.Proofs.RelayPaging
import Variance.Spec.Mailboxes

/-! A relay stays within its limits along every careful run: the mailbox a request writes to has room when it writes,
and what lies in a mailbox expires within its time to live and before the clock passes it by. -/

namespace Variance

/-! What a fetch answers with -/

namespace RelayStore
variable {s : RelayStore} {mailboxToken : Bytes}

theorem mem_fetchOffline {since : Option ℤ} {n : ℕ} {e : OfflineMessageEnvelope}
    (h : e ∈ s.fetchOffline mailboxToken since n) : ∃ k : String, s.tree[k]? = some e := by
  rw [fetchOffline_eq] at h
  obtain ⟨x, hx, rfl⟩ := List.mem_map.1 (List.mem_of_mem_take h)
  exact ⟨x.1, (mem_scanPrefix.1 (List.mem_filter.1 hx).1).1⟩

/-- All of it lies in the tree. -/
theorem mem_fetchMessages {request : OfflineMessageRequest} {response : OfflineMessageResponse}
    {e : OfflineMessageEnvelope} (h : s.fetchMessages request = .ok response) (he : e ∈ response.messages) :
    ∃ k : String, s.tree[k]? = some e := by
  unfold fetchMessages at h
  split_ifs at h
  obtain rfl := Except.ok.inj h
  dsimp only at he
  split_ifs at he
  · exact mem_fetchOffline (List.mem_of_mem_take he)
  · exact mem_fetchOffline he

end RelayStore

theorem hasPrefix_offlineKey_iff {t t' : Bytes} {ts : ℤ} {id : String} :
    Text.HasPrefix (mailboxPrefix t) (offlineKey t' ts id) ↔ t = t' := by
  constructor
  · rintro ⟨rest, hrest⟩
    have hlist : Text.hexChars t ++ ':' :: rest =
        Text.hexChars t' ++ ':' :: ((pad20 ts).toList ++ ':' :: id.toList) := by
      simpa [offlineKey, mailboxPrefix, String.toList_append] using hrest
    have hcut := Text.append_cons_inj (Text.colon_notMem_hexChars t) (Text.colon_notMem_hexChars t') hlist
    exact Text.hexChars_inj.1 hcut.1
  · rintro rfl
    exact ((Text.hasPrefix_append _ _).append _).append _

namespace MailboxRelay
variable {s : MailboxRelay}

/-! What holds along a careful run -/

/-- No mailbox is over its quota, and whatever lies in one has its time to live ahead of it. -/
structure Limited (s : MailboxRelay) : Prop where
  quota : ∀ mailboxToken, s.relay.countOfflineForMailbox mailboxToken ≤ RelayStore.maxQueuedPerMailbox
  fresh : ∀ (k : String) (e : OfflineMessageEnvelope), s.store.offline[k]? = some e →
    s.now ≤ e.expiresAt ∧ ∃ t : ℤ, s.storedWhen[k]? = some t ∧ e.expiresAt ≤ t + s.ttlMs

theorem limited_start (ttlMs now : ℤ) : (start ttlMs now).Limited where
  quota t := by
    have hnil : (start ttlMs now).relay.mailbox t = [] := by
      refine List.eq_nil_iff_forall_not_mem.2 fun e he => ?_
      have := (mem_scanPrefix.1 he).1
      simp [relay, start, IndexedStore.empty] at this
    rw [RelayStore.countOfflineForMailbox, hnil]
    exact Nat.zero_le _
  fresh k e h := by simp [start, IndexedStore.empty] at h

theorem Limited.withinLimits (h : s.Limited) : s.WithinLimits where
  quota := h.quota
  unexpired e he := by
    obtain ⟨request, response, hr, hmem⟩ := he
    obtain ⟨k, hk⟩ := RelayStore.mem_fetchMessages hr hmem
    exact (h.fresh k e hk).1
  withinTtl e he := by
    obtain ⟨request, response, hr, hmem⟩ := he
    obtain ⟨k, hk⟩ := RelayStore.mem_fetchMessages hr hmem
    obtain ⟨m, hm, hkey⟩ := s.filed k e hk
    obtain ⟨hnow, t, ht, hle⟩ := h.fresh k e hk
    refine ⟨k, t, ?_, ht, by omega⟩
    unfold OfflineMessageEnvelope.key
    rw [hm, Option.map_some, hkey]

/-- Envelopes only go. -/
theorem Limited.remove (h : s.Limited) {s' : MailboxRelay} (hgone : ∀ (k : String) (e : OfflineMessageEnvelope),
      s'.store.offline[k]? = some e → s.store.offline[k]? = some e)
    (hnow : s'.now = s.now) (hwhen : s'.storedWhen = s.storedWhen) (httl : s'.ttlMs = s.ttlMs) : s'.Limited where
  quota t := by
    refine le_trans ?_ (h.quota t)
    exact ((nodup_scanPrefix _ _).subperm fun e he =>
      mem_scanPrefix.2 ⟨hgone e.1 e.2 (mem_scanPrefix.1 he).1, (mem_scanPrefix.1 he).2⟩).length_le
  fresh k e hk := by
    rw [hnow, hwhen, httl]
    exact h.fresh k e (hgone k e hk)

/-! What a write does -/

theorem storeOffline_none (s : IndexedStore) (f : Faults) {envelope : OfflineMessageEnvelope}
    (hm : envelope.message = none) :
    s.storeOffline f envelope = (.error (.invalidFormat "Offline envelope has no message"), s) := by
  unfold IndexedStore.storeOffline
  rw [hm]

theorem storeOffline_fault (s : IndexedStore) {f : Faults} {envelope : OfflineMessageEnvelope} {m : OfflineMessage}
    (hm : envelope.message = some m)
    (hf : f "offline_messages" (offlineKey envelope.mailboxToken m.timestamp m.id) = true) :
    s.storeOffline f envelope = (.error .storage, s) := by
  unfold IndexedStore.storeOffline
  rw [hm]
  dsimp only
  rw [treeInsert_error hf]

/-- Once the envelope is in the tree, only the index can fail. -/
theorem storeOffline_ok (s : IndexedStore) {f : Faults} {envelope : OfflineMessageEnvelope} {m : OfflineMessage}
    (hm : envelope.message = some m)
    (hf : f "offline_messages" (offlineKey envelope.mailboxToken m.timestamp m.id) = false) :
    (s.storeOffline f envelope).2.offline =
        s.offline.insert (offlineKey envelope.mailboxToken m.timestamp m.id) envelope ∧
      (f "message_index" (LocalMessageStorage.indexKey m.id) = false → (s.storeOffline f envelope).1 = .ok ()) := by
  unfold IndexedStore.storeOffline
  rw [hm]
  dsimp only
  rw [treeInsert_ok hf]
  refine ⟨rfl, fun hi => ?_⟩
  dsimp only
  rw [treeInsert_ok hi]
  rfl

theorem step_store_none {f : Faults} {i : ℕ} (hat : s.countedAt i = none) : s.step (.store f i) = s := by
  unfold step
  dsimp only
  rw [hat]

theorem step_store {f : Faults} {i : ℕ} {envelope : OfflineMessageEnvelope} (hat : s.countedAt i = some envelope) :
    s.step (.store f i) = { s with
      store := (s.store.storeOffline f envelope).2
      filed := IndexedStore.filed_storeOffline s.filed f envelope
      requests := s.requests.eraseIdx i
      storedWhen := s.stamp f envelope } := by
  unfold step
  dsimp only
  rw [hat]

theorem step_count_full {i : ℕ} {envelope : OfflineMessageEnvelope} (hat : s.requests[i]? = some (.validated envelope))
    (hfull : RelayStore.maxQueuedPerMailbox ≤ s.relay.countOfflineForMailbox envelope.mailboxToken) :
    s.step (.count i) = { s with requests := s.requests.eraseIdx i } := by
  have hcheck : s.relay.checkQueue envelope = .error .relayStorageFull := if_pos hfull
  unfold step
  dsimp only
  rw [hat]
  dsimp only
  rw [hcheck]

theorem step_count_room {i : ℕ} {envelope : OfflineMessageEnvelope} (hat : s.requests[i]? = some (.validated envelope))
    (hroom : ¬ RelayStore.maxQueuedPerMailbox ≤ s.relay.countOfflineForMailbox envelope.mailboxToken) :
    s.step (.count i) = { s with requests := s.requests.set i (.counted envelope) } := by
  have hcheck : s.relay.checkQueue envelope = .ok () := if_neg hroom
  unfold step
  dsimp only
  rw [hat]
  dsimp only
  rw [hcheck]

theorem stamp_eq {f : Faults} {envelope : OfflineMessageEnvelope} {m : OfflineMessage}
    (hm : envelope.message = some m) : s.stamp f envelope = (treeInsert f "offline_messages"
      (offlineKey envelope.mailboxToken m.timestamp m.id) s.now s.storedWhen).2 := by
  rw [stamp, OfflineMessageEnvelope.key, hm]
  rfl

/-- A write makes room for itself in its own mailbox, and counts in no other. -/
theorem quota_insert {t : SledTree OfflineMessageEnvelope} {envelope : OfflineMessageEnvelope} {ts : ℤ} {id : String}
    (hall : ∀ token, (scanPrefix (mailboxPrefix token) t).length ≤ RelayStore.maxQueuedPerMailbox)
    (hroom : (scanPrefix (mailboxPrefix envelope.mailboxToken) t).length < RelayStore.maxQueuedPerMailbox ∨
      (t[offlineKey envelope.mailboxToken ts id]?).isSome = true) (token : Bytes) :
    (scanPrefix (mailboxPrefix token) (t.insert (offlineKey envelope.mailboxToken ts id) envelope)).length ≤
      RelayStore.maxQueuedPerMailbox := by
  by_cases htoken : token = envelope.mailboxToken
  · subst htoken
    rw [length_scanPrefix_insert (hasPrefix_offlineKey_iff.2 rfl)]
    rcases hroom with hroom | hthere
    · split_ifs <;> omega
    · rw [if_pos hthere]
      exact hall _
  · rw [scanPrefix_insert_of_not fun hpre => htoken (hasPrefix_offlineKey_iff.1 hpre)]
    exact hall token

theorem limited_store (h : s.Limited) {f : Faults} {i : ℕ} (hc : s.Careful (.store f i)) :
    (s.step (.store f i)).Limited := by
  cases hat : s.countedAt i with
  | none =>
    rw [step_store_none hat]
    exact h
  | some envelope =>
    rw [step_store hat]
    cases hm : envelope.message with
    | none =>
      refine h.remove (fun k e hk => ?_) rfl ?_ rfl
      · dsimp only at hk
        rw [storeOffline_none s.store f hm] at hk
        exact hk
      · dsimp only
        rw [stamp, OfflineMessageEnvelope.key, hm]
        rfl
    | some m =>
      by_cases hf : f "offline_messages" (offlineKey envelope.mailboxToken m.timestamp m.id) = true
      · refine h.remove (fun k e hk => ?_) rfl ?_ rfl
        · dsimp only at hk
          rw [storeOffline_fault s.store hm hf] at hk
          exact hk
        · dsimp only
          rw [stamp_eq hm, treeInsert_error hf]
      rw [Bool.not_eq_true] at hf
      have htree := (storeOffline_ok s.store hm hf).1
      have hstamp : s.stamp f envelope = s.storedWhen.insert
          (offlineKey envelope.mailboxToken m.timestamp m.id) s.now := by rw [stamp_eq hm, treeInsert_ok hf]
      obtain ⟨hroom, hnow, httl, -⟩ := hc envelope hat m hm hf
      constructor
      · intro token
        show (scanPrefix (mailboxPrefix token) (s.store.storeOffline f envelope).2.offline).length ≤ _
        rw [htree]
        exact quota_insert h.quota hroom token
      · intro k e hk
        dsimp only at hk ⊢
        rw [hstamp, get_insert]
        rw [htree, get_insert] at hk
        split_ifs at hk with hkey
        · obtain rfl := Option.some.inj hk
          exact ⟨hnow, s.now, if_pos hkey, httl⟩
        · rw [if_neg hkey]
          exact h.fresh k e hk

/-- The steps of a request up to its write leave the store and the clock as they are. -/
theorem Limited.waiting (h : s.Limited) (requests : List StoreRequest) :
    Limited { s with requests := requests } := ⟨h.quota, h.fresh⟩

theorem limited_step (h : s.Limited) : ∀ ev, s.Careful ev → (s.step ev).Limited
  | .request envelope, _ => by
    unfold step
    dsimp only
    split
    · exact h
    · exact h.waiting _
  | .count i, _ => by
    unfold step
    dsimp only
    split
    · split
      · exact h.waiting _
      · exact h.waiting _
    · exact h
  | .store _ _, hc => limited_store h hc
  | .delete _ _, _ => h.remove (fun _ _ hk => IndexedStore.deleteOffline_some hk) rfl rfl rfl
  | .cleanup _, _ => h.remove (fun _ _ hk => IndexedStore.cleanupExpired_some hk) rfl rfl rfl
  | .tick now, hc => ⟨h.quota, fun k e hk => ⟨hc (k, e) ((mem_iter _).2 hk), (h.fresh k e hk).2⟩⟩

/-- A request that is refused before it writes wrote nothing, and one whose write fails wrote neither the envelope
nor the index. -/
theorem refused_of_careful : ∀ ev, s.Careful ev → ∀ err, s.answer ev = some (.error err) → (s.step ev).store = s.store
  | .request envelope, _, err, _ => by
    unfold step
    dsimp only
    split <;> rfl
  | .count i, _, err, _ => by
    unfold step
    dsimp only
    split
    · split <;> rfl
    · rfl
  | .store f i, hc, err, hanswer => by
    unfold answer at hanswer
    obtain ⟨envelope, hat, hwrite⟩ := Option.map_eq_some_iff.1 hanswer
    rw [step_store hat]
    dsimp only
    cases hm : envelope.message with
    | none => rw [storeOffline_none s.store f hm]
    | some m =>
      by_cases hf : f "offline_messages" (offlineKey envelope.mailboxToken m.timestamp m.id) = true
      · rw [storeOffline_fault s.store hm hf]
      · rw [Bool.not_eq_true] at hf
        obtain ⟨-, -, -, hindex⟩ := hc envelope hat m hm hf
        rw [(storeOffline_ok s.store hm hf).2 hindex] at hwrite
        cases hwrite
  | .delete _ _, _, _, hanswer => by cases hanswer
  | .cleanup _, _, _, hanswer => by cases hanswer
  | .tick _, _, _, hanswer => by cases hanswer

/-- A request that nothing comes between is `store_message`. -/
theorem storeMessage_alone (s : MailboxRelay) (envelope : OfflineMessageEnvelope) :
    (([.request envelope, .count s.requests.length, .store noFaults s.requests.length] : List MailboxEvent).foldl step
      s).store.offline = (s.relay.storeMessage s.now envelope).2.tree := by
  have hrefused : ((s.step (.count s.requests.length)).step (.store noFaults s.requests.length)).store = s.store := by
    have hcount : s.step (.count s.requests.length) = s := by simp [step]
    rw [hcount, step_store_none (by simp [countedAt])]
  show (((s.step (.request envelope)).step (.count s.requests.length)).step
    (.store noFaults s.requests.length)).store.offline = _
  unfold RelayStore.storeMessage
  by_cases hmessage : envelope.message.isNone = true
  · rw [if_pos hmessage, show s.step (.request envelope) = s by simp [step, validateEnvelope, hmessage], hrefused]
    rfl
  by_cases hexpired : envelope.expiresAt < s.now
  · rw [if_neg hmessage, if_pos hexpired,
      show s.step (.request envelope) = s by simp [step, validateEnvelope, hmessage, hexpired], hrefused]
    rfl
  rw [if_neg hmessage, if_neg hexpired]
  have hrequest : s.step (.request envelope) = { s with requests := s.requests ++ [.validated envelope] } := by
    simp [step, validateEnvelope, hmessage, hexpired]
  rw [hrequest]
  have hat : (s.requests ++ [.validated envelope])[s.requests.length]? = some (StoreRequest.validated envelope) := by simp
  by_cases hfull : RelayStore.maxQueuedPerMailbox ≤ s.relay.countOfflineForMailbox envelope.mailboxToken
  · have hcount := step_count_full (s := { s with requests := s.requests ++ [.validated envelope] }) hat hfull
    have hgone : (s.requests ++ [StoreRequest.validated envelope]).eraseIdx s.requests.length = s.requests := by
      rw [List.eraseIdx_append_of_length_le le_rfl]
      simp
    rw [if_pos hfull, hcount, step_store_none (by simp [countedAt, hgone])]
    rfl
  · have hcount := step_count_room (s := { s with requests := s.requests ++ [.validated envelope] }) hat hfull
    rw [if_neg hfull, hcount, @step_store _ noFaults _ envelope (by simp [countedAt])]
    obtain ⟨m, hm⟩ : ∃ m, envelope.message = some m := by
      cases hm : envelope.message with
      | none => rw [hm] at hmessage; exact absurd rfl hmessage
      | some m => exact ⟨m, rfl⟩
    dsimp only
    rw [(storeOffline_ok s.store hm rfl).1]
    unfold RelayStore.storeOffline
    split
    · next hnone => rw [hm] at hnone; cases hnone
    · next m' hm' =>
      obtain rfl : m = m' := Option.some.inj (hm.symm.trans hm')
      rfl

theorem offline_store {i : ℕ} {e : OfflineMessageEnvelope} {m : OfflineMessage} (hat : s.countedAt i = some e)
    (hm : e.message = some m) : (s.step (.store noFaults i)).store.offline =
      s.store.offline.insert (offlineKey e.mailboxToken m.timestamp m.id) e := by
  rw [step_store hat]
  exact (storeOffline_ok s.store hm rfl).1

theorem count_store {i : ℕ} {e : OfflineMessageEnvelope} {m : OfflineMessage} (hat : s.countedAt i = some e)
    (hm : e.message = some m) (hnew : s.store.offline[offlineKey e.mailboxToken m.timestamp m.id]? = none) :
    (s.step (.store noFaults i)).relay.countOfflineForMailbox e.mailboxToken =
      s.relay.countOfflineForMailbox e.mailboxToken + 1 := by
  show (scanPrefix (mailboxPrefix e.mailboxToken) (s.step (.store noFaults i)).store.offline).length = _
  rw [offline_store hat hm, length_scanPrefix_insert (hasPrefix_offlineKey_iff.2 rfl), hnew]
  rfl

/-- What care keeps out: two requests counted a mailbox with room for one, and both write. -/
theorem quota_overrun {i j : ℕ} {e e' : OfflineMessageEnvelope} {m m' : OfflineMessage} (hat : s.countedAt i = some e)
    (hat' : (s.step (.store noFaults i)).countedAt j = some e') (hm : e.message = some m) (hm' : e'.message = some m')
    (htoken : e'.mailboxToken = e.mailboxToken)
    (hkeys : offlineKey e.mailboxToken m.timestamp m.id ≠ offlineKey e'.mailboxToken m'.timestamp m'.id)
    (hnew : s.store.offline[offlineKey e.mailboxToken m.timestamp m.id]? = none)
    (hnew' : s.store.offline[offlineKey e'.mailboxToken m'.timestamp m'.id]? = none)
    (hlast : s.relay.countOfflineForMailbox e.mailboxToken + 1 = RelayStore.maxQueuedPerMailbox) :
    RelayStore.maxQueuedPerMailbox <
      ((s.step (.store noFaults i)).step (.store noFaults j)).relay.countOfflineForMailbox e.mailboxToken := by
  have hstill : (s.step (.store noFaults i)).store.offline[offlineKey e'.mailboxToken m'.timestamp m'.id]? = none := by
    rw [offline_store hat hm, get_insert, if_neg hkeys]
    exact hnew'
  have hfirst := count_store hat hm hnew
  have hsecond := count_store hat' hm' hstill
  rw [htoken] at hsecond
  omega

/-- In every careful run, however the requests interleave: no mailbox is ever over its quota, nothing can be fetched
past its expiry or its time to live, and a request that is refused leaves the store as it was. -/
theorem within_limits (ttlMs now : ℤ) (evs : List MailboxEvent)
    (h : StepSystem.Guarded (mailboxSys ttlMs now) Careful (start ttlMs now) evs) :
    StepSystem.Guarded (mailboxSys ttlMs now) Sound (start ttlMs now) evs :=
  StepSystem.Guarded.imp (M := mailboxSys ttlMs now) (I := Limited)
    (fun _ ev hl hc => ⟨(limited_step hl ev hc).withinLimits, refused_of_careful ev hc⟩)
    (fun _ ev hl hc => limited_step hl ev hc) (limited_start ttlMs now) h

end MailboxRelay
namespace MailboxLimits

/-- An envelope for the mailbox `[0]`. -/
def envelope (id : String) (expiresAt : ℤ) : OfflineMessageEnvelope where
  mailboxToken := [0]
  message := some (.direct
    { id := id, senderDid := "did:a", recipientDid := "did:b", ciphertext := [], olmMessageType := 1, signature := []
      timestamp := 1, type := 1, replyTo := none, senderIdentityKey := none })
  storedAt := 0
  expiresAt := expiresAt

/-- Fourteen days in milliseconds. -/
def days14 : ℤ := 14 * 24 * 60 * 60 * 1000

/-- Two requests side by side, both gone by the end of their time: one fetched and deleted, one cleaned up. -/
theorem side_by_side : StepSystem.Guarded (mailboxSys days14 0) MailboxRelay.Sound (.start days14 0)
    [.request (envelope "x" days14), .request (envelope "y" 9), .count 1, .count 0, .store noFaults 1, .tick 9,
      .store noFaults 0, .cleanup noFaults, .tick 10, .delete noFaults "x", .tick (days14 + 1)] :=
  MailboxRelay.within_limits days14 0 _ (by decide +kernel)

/-- A sender asks for twice the time. -/
def late : List MailboxEvent :=
  [.request (envelope "x" (2 * days14)), .count 0, .store noFaults 0, .tick (days14 + 1)]

/-- The sender sets the expiry: it is still there after the relay's fourteen days. -/
theorem kept_past_ttl : ¬ ∀ (ttlMs now : ℤ) (evs : List MailboxEvent),
    StepSystem.Guarded (mailboxSys ttlMs now) MailboxRelay.Sound (.start ttlMs now) evs := by
  intro h
  obtain ⟨-, -, -, ⟨hlimits, -⟩, -⟩ := h days14 0 late
  obtain ⟨k, t, hk, ht, hle⟩ := hlimits.withinTtl (envelope "x" (2 * days14))
    ⟨⟨[0], none, 10⟩, ⟨[envelope "x" (2 * days14)], false, some 0⟩, by decide +kernel, by simp⟩
  have hrun : (late.foldl MailboxRelay.step (.start days14 0)).now = days14 + 1 ∧
      (late.foldl MailboxRelay.step (.start days14 0)).ttlMs = days14 ∧
      (late.foldl MailboxRelay.step (.start days14 0)).storedWhen[offlineKey [0] 1 "x"]? = some 0 := by decide +kernel
  obtain ⟨hnow, httl, hwhen⟩ := hrun
  obtain rfl : offlineKey [0] 1 "x" = k := Option.some.inj hk
  have hat : (late.foldl MailboxRelay.step (.start days14 0)).storedWhen[offlineKey [0] 1 "x"]? = some t := ht
  obtain rfl : 0 = t := Option.some.inj (hwhen.symm.trans hat)
  have hpast : (late.foldl MailboxRelay.step (.start days14 0)).now ≤
      0 + (late.foldl MailboxRelay.step (.start days14 0)).ttlMs := hle
  omega

end MailboxLimits
end Variance
