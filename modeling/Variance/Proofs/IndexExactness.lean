import Variance.Lib.Run
import Variance.Sanity.Padded
import Variance.Sanity.Trees
import Variance.Spec.MessageIndex

/-! The index of messages by id answers and deletes exactly along a run of careful steps: ids that are told apart by
their keys, each in one place of its tree, and entries that go with their messages. -/

namespace Variance

open LocalMessageStorage

/-! Keys -/

theorem indexKey_inj {a b : String} : indexKey a = indexKey b ↔ a = b := Text.append_right_inj

theorem indexedKey_pending (k : String) : indexedKey ("pending:" ++ k) = some k := by
  unfold indexedKey
  rw [if_pos (Text.hasPrefix_append _ _), String.toList_append]
  simp

theorem offlineIndexedKey_offline (k : String) : IndexedStore.offlineIndexedKey ("offline:" ++ k) = some k := by
  unfold IndexedStore.offlineIndexedKey
  rw [if_pos (Text.hasPrefix_append _ _), String.toList_append]
  simp

theorem indexedKey_offline (k : String) : indexedKey ("offline:" ++ k) = none := by
  unfold indexedKey
  refine if_neg fun h => ?_
  unfold Text.HasPrefix at h
  rw [String.toList_append] at h
  simp at h

theorem offlineIndexedKey_pending (k : String) : IndexedStore.offlineIndexedKey ("pending:" ++ k) = none := by
  unfold IndexedStore.offlineIndexedKey
  refine if_neg fun h => ?_
  unfold Text.HasPrefix at h
  rw [String.toList_append] at h
  simp at h

theorem hasSuffix_pendingKey (peerDid : Did) (id : String) : Text.HasSuffix (":" ++ id) (pendingKey peerDid id) := by
  unfold Text.HasSuffix pendingKey
  rw [String.append_assoc, @String.toList_append peerDid]
  exact List.suffix_append _ _

/-- The first two colons of an offline key are its own, so the id is what follows, whatever is in it. -/
theorem offlineKey_id {t t' : Bytes} {ts ts' : ℤ} {id id' : String} (h : offlineKey t ts id = offlineKey t' ts' id') :
    id = id' := by
  have hlist : Text.hexChars t ++ ':' :: ((pad20 ts).toList ++ ':' :: id.toList) =
      Text.hexChars t' ++ ':' :: ((pad20 ts').toList ++ ':' :: id'.toList) := by
    have := congrArg String.toList h
    simpa [offlineKey, mailboxPrefix, String.toList_append] using this
  obtain ⟨-, hrest⟩ := Text.append_cons_inj (Text.colon_notMem_hexChars t) (Text.colon_notMem_hexChars t') hlist
  exact String.toList_inj.1 (Text.append_cons_inj (colon_notMem_pad20 ts) (colon_notMem_pad20 ts') hrest).2

namespace IndexedStore
variable {s s' : IndexedStore} {f : Faults} {id a k : String}

/-! What holds along a careful run -/

/-- Each message lies under a key of its own id, and no other has the id; what the index says of a pending message
lies there, and what it says of an envelope is the only place where one with the id may lie. -/
structure Indexed (s : IndexedStore) : Prop where
  pendingFiled : ∀ (k : String) (m : DirectMessage), s.storage.pendingMessages[k]? = some m →
    ∃ peerDid, k = pendingKey peerDid m.id
  pendingUnique : ∀ (k k' : String) (m m' : DirectMessage), s.storage.pendingMessages[k]? = some m →
    s.storage.pendingMessages[k']? = some m' → m.id = m'.id → k = k'
  pendingLive : ∀ id k, s.pendingEntry id = some k →
    ∃ m : DirectMessage, s.storage.pendingMessages[k]? = some m ∧ m.id = id
  offlineFiled : ∀ (k : String) (e : OfflineMessageEnvelope), s.offline[k]? = some e →
    ∃ m, e.message = some m ∧ offlineKey e.mailboxToken m.timestamp m.id = k
  offlineUnique : ∀ (k k' : String) (e e' : OfflineMessageEnvelope), s.offline[k]? = some e →
    s.offline[k']? = some e' → e.messageId = e'.messageId → k = k'
  offlineLocated : ∀ id k, s.offlineEntry id = some k → (∃ token ts, k = offlineKey token ts id) ∧
    ∀ (k' : String) (e : OfflineMessageEnvelope), s.offline[k']? = some e → e.messageId = some id → k' = k

theorem indexed_empty : Indexed .empty where
  pendingFiled k m h := by simp [empty, LocalMessageStorage.empty] at h
  pendingUnique k k' m m' h := by simp [empty, LocalMessageStorage.empty] at h
  pendingLive id k h := by simp [empty, LocalMessageStorage.empty, pendingEntry] at h
  offlineFiled k e h := by simp [empty] at h
  offlineUnique k k' e e' h := by simp [empty] at h
  offlineLocated id k h := by simp [empty, LocalMessageStorage.empty, offlineEntry] at h

/-- Where the envelopes only go and the index has no new entry for one, that half holds. -/
theorem Indexed.congr_pending (h : s.Indexed) (hp : s'.storage.pendingMessages = s.storage.pendingMessages)
    (hentry : ∀ id k, s'.pendingEntry id = some k → s.pendingEntry id = some k)
    (hfiled : ∀ (k : String) (e : OfflineMessageEnvelope), s'.offline[k]? = some e →
      ∃ m, e.message = some m ∧ offlineKey e.mailboxToken m.timestamp m.id = k)
    (hunique : ∀ (k k' : String) (e e' : OfflineMessageEnvelope), s'.offline[k]? = some e →
      s'.offline[k']? = some e' → e.messageId = e'.messageId → k = k')
    (hlocated : ∀ id k, s'.offlineEntry id = some k → (∃ token ts, k = offlineKey token ts id) ∧
      ∀ (k' : String) (e : OfflineMessageEnvelope), s'.offline[k']? = some e → e.messageId = some id → k' = k) :
    s'.Indexed where
  pendingFiled := by rw [hp]; exact h.pendingFiled
  pendingUnique := by rw [hp]; exact h.pendingUnique
  pendingLive id k hk := by rw [hp]; exact h.pendingLive id k (hentry id k hk)
  offlineFiled := hfiled
  offlineUnique := hunique
  offlineLocated := hlocated

theorem Indexed.congr_offline (h : s.Indexed) (ho : s'.offline = s.offline)
    (hentry : ∀ id k, s'.offlineEntry id = some k → s.offlineEntry id = some k)
    (hfiled : ∀ (k : String) (m : DirectMessage), s'.storage.pendingMessages[k]? = some m →
      ∃ peerDid, k = pendingKey peerDid m.id)
    (hunique : ∀ (k k' : String) (m m' : DirectMessage), s'.storage.pendingMessages[k]? = some m →
      s'.storage.pendingMessages[k']? = some m' → m.id = m'.id → k = k')
    (hlive : ∀ id k, s'.pendingEntry id = some k →
      ∃ m : DirectMessage, s'.storage.pendingMessages[k]? = some m ∧ m.id = id) : s'.Indexed where
  pendingFiled := hfiled
  pendingUnique := hunique
  pendingLive := hlive
  offlineFiled := by rw [ho]; exact h.offlineFiled
  offlineUnique := by rw [ho]; exact h.offlineUnique
  offlineLocated id k hk := by rw [ho]; exact h.offlineLocated id k (hentry id k hk)

/-! Storing -/

theorem indexed_storePending (h : s.Indexed) {peerDid : Did} {m : DirectMessage}
    (hc : s.Careful (.storePending f peerDid m)) : (s.step (.storePending f peerDid m)).Indexed := by
  by_cases hf : f "pending_messages" (pendingKey peerDid m.id) = true
  · have hsame : s.step (.storePending f peerDid m) = s := by
      unfold step storePendingMessage treeInsert
      simp [hf]
    rw [hsame]
    exact h
  rw [Bool.not_eq_true] at hf
  have hpending : (s.step (.storePending f peerDid m)).storage.pendingMessages =
      s.storage.pendingMessages.insert (pendingKey peerDid m.id) m := by
    show (s.storage.storePendingMessage f peerDid m).2.pendingMessages = _
    unfold storePendingMessage
    dsimp only
    rw [treeInsert_ok hf]
  have hindex : (s.step (.storePending f peerDid m)).storage.messageIndex = (treeInsert f "message_index" (indexKey m.id)
      ("pending:" ++ pendingKey peerDid m.id) s.storage.messageIndex).2 := by
    show (s.storage.storePendingMessage f peerDid m).2.messageIndex = _
    unfold storePendingMessage
    dsimp only
    rw [treeInsert_ok hf]
  -- at its key lies a message with its id or nothing, and elsewhere none with its id
  have hwhere (k : String) (x : DirectMessage) (hx : s.storage.pendingMessages[k]? = some x) :
      k = pendingKey peerDid m.id ↔ x.id = m.id := hc hf (k, x) ((mem_iter _).2 hx)
  have hget {k : String} {x : DirectMessage}
      (hx : (s.step (.storePending f peerDid m)).storage.pendingMessages[k]? = some x) :
      (k = pendingKey peerDid m.id ∧ x = m) ∨ (k ≠ pendingKey peerDid m.id ∧ s.storage.pendingMessages[k]? = some x) := by
    rw [hpending, get_insert] at hx
    split_ifs at hx with hk
    · exact Or.inl ⟨hk.symm, (Option.some.inj hx).symm⟩
    · exact Or.inr ⟨fun h => hk h.symm, hx⟩
  refine h.congr_offline rfl (fun id k hk => ?_) (fun k x hx => ?_) (fun k k' x x' hx hx' hid => ?_) fun id k hk => ?_
  · unfold offlineEntry at hk ⊢
    rw [hindex, get_treeInsert] at hk
    split_ifs at hk with hif
    · rw [Option.bind_some, offlineIndexedKey_pending] at hk
      cases hk
    · exact hk
  · rcases hget hx with ⟨rfl, rfl⟩ | ⟨-, hx⟩
    · exact ⟨peerDid, rfl⟩
    · exact h.pendingFiled k x hx
  · rcases hget hx with ⟨hk, hxm⟩ | ⟨-, hold⟩
    · rcases hget hx' with ⟨hk', -⟩ | ⟨-, hold'⟩
      · rw [hk, hk']
      · rw [hk]
        exact ((hwhere k' x' hold').2 (by rw [← hid, hxm])).symm
    · rcases hget hx' with ⟨hk', hxm'⟩ | ⟨-, hold'⟩
      · rw [hk']
        exact (hwhere k x hold).2 (by rw [hid, hxm'])
      · exact h.pendingUnique k k' x x' hold hold' hid
  · unfold pendingEntry at hk
    rw [hindex, get_treeInsert] at hk
    rw [hpending]
    split_ifs at hk with hif
    · rw [Option.bind_some, indexedKey_pending] at hk
      obtain rfl := Option.some.inj hk
      exact ⟨m, by simp, indexKey_inj.1 hif.1⟩
    · obtain ⟨x, hx, hid⟩ := h.pendingLive id k hk
      by_cases hkey : k = pendingKey peerDid m.id
      · exact ⟨m, by rw [hkey]; simp, ((hwhere k x hx).1 hkey).symm.trans hid⟩
      · exact ⟨x, by rw [get_insert, if_neg (Ne.symm hkey)]; exact hx, hid⟩

theorem indexed_storeOffline (h : s.Indexed) {envelope : OfflineMessageEnvelope}
    (hc : s.Careful (.storeOffline f envelope)) : (s.step (.storeOffline f envelope)).Indexed := by
  show (s.storeOffline f envelope).2.Indexed
  unfold storeOffline
  cases hm : envelope.message with
  | none => exact h
  | some m =>
    dsimp only
    by_cases hf : f "offline_messages" (offlineKey envelope.mailboxToken m.timestamp m.id) = true
    · rw [treeInsert, if_pos hf]
      exact h
    rw [Bool.not_eq_true] at hf
    obtain ⟨hplace, hname⟩ := hc m hm hf
    rw [treeInsert_ok hf]
    dsimp only
    have hid : envelope.messageId = some m.id := by
      unfold OfflineMessageEnvelope.messageId
      rw [hm]
      rfl
    have hget {k : String} {x : OfflineMessageEnvelope} (hx : (s.offline.insert
        (offlineKey envelope.mailboxToken m.timestamp m.id) envelope)[k]? = some x) :
        (k = offlineKey envelope.mailboxToken m.timestamp m.id ∧ x = envelope) ∨ s.offline[k]? = some x := by
      rw [get_insert] at hx
      split_ifs at hx with hk
      · exact Or.inl ⟨hk.symm, (Option.some.inj hx).symm⟩
      · exact Or.inr hx
    have hother {k : String} {x : OfflineMessageEnvelope} (hx : s.offline[k]? = some x)
        (hxid : x.messageId = some m.id) : k = offlineKey envelope.mailboxToken m.timestamp m.id :=
      hplace (k, x) ((mem_iter _).2 hx) hxid
    refine h.congr_pending rfl (fun id k hk => ?_) (fun k x hx => ?_) (fun k k' x x' hx hx' hxid => ?_)
      fun id k hk => ?_
    · unfold pendingEntry at hk ⊢
      dsimp only at hk
      rw [get_treeInsert] at hk
      split_ifs at hk with hif
      · rw [Option.bind_some, indexedKey_offline] at hk
        cases hk
      · exact hk
    · rcases hget hx with ⟨rfl, rfl⟩ | hx
      · exact ⟨m, hm, rfl⟩
      · exact h.offlineFiled k x hx
    · rcases hget hx with ⟨hk, hxe⟩ | hold
      · rcases hget hx' with ⟨hk', -⟩ | hold'
        · rw [hk, hk']
        · rw [hk]
          exact (hother hold' (by rw [← hxid, hxe, hid])).symm
      · rcases hget hx' with ⟨hk', hxe'⟩ | hold'
        · rw [hk']
          exact hother hold (by rw [hxid, hxe', hid])
        · exact h.offlineUnique k k' x x' hold hold' hxid
    · unfold offlineEntry at hk
      dsimp only at hk
      rw [get_treeInsert] at hk
      split_ifs at hk with hif
      · rw [Option.bind_some, offlineIndexedKey_offline] at hk
        obtain rfl := Option.some.inj hk
        obtain rfl := indexKey_inj.1 hif.1
        refine ⟨⟨_, _, rfl⟩, fun k' x hx hxid => ?_⟩
        rcases hget hx with ⟨rfl, -⟩ | hx
        · rfl
        · exact hother hx hxid
      · obtain ⟨hkey, hall⟩ := h.offlineLocated id k hk
        refine ⟨hkey, fun k' x hx hxid => ?_⟩
        rcases hget hx with ⟨rfl, rfl⟩ | hx
        · -- the index was not written: what it said before is this key
          obtain rfl : m.id = id := Option.some.inj (hid.symm.trans hxid)
          have hfault : f "message_index" (indexKey m.id) = true := by
            by_contra hok
            exact hif ⟨rfl, by simpa using hok⟩
          exact (hname hfault k hk).symm
        · exact hall k' x hx hxid

/-! Deleting -/

/-- Pending messages only go, and what the index says of one that stays is kept. -/
theorem Indexed.remove_pending (h : s.Indexed) (ho : s'.offline = s.offline)
    (hgone : ∀ (k : String) (m : DirectMessage), s'.storage.pendingMessages[k]? = some m →
      s.storage.pendingMessages[k]? = some m)
    (hentry : ∀ id k, s'.offlineEntry id = some k → s.offlineEntry id = some k)
    (hlive : ∀ id k, s'.pendingEntry id = some k →
      ∃ m : DirectMessage, s'.storage.pendingMessages[k]? = some m ∧ m.id = id) : s'.Indexed :=
  h.congr_offline ho hentry (fun k x hx => h.pendingFiled k x (hgone k x hx))
    (fun k k' x x' hx hx' hid => h.pendingUnique k k' x x' (hgone k x hx) (hgone k' x' hx') hid) hlive

/-- Envelopes only go, and the index names no new one. -/
theorem Indexed.remove_offline (h : s.Indexed) (hp : s'.storage.pendingMessages = s.storage.pendingMessages)
    (hgone : ∀ (k : String) (e : OfflineMessageEnvelope), s'.offline[k]? = some e → s.offline[k]? = some e)
    (hpending : ∀ id k, s'.pendingEntry id = some k → s.pendingEntry id = some k)
    (hoffline : ∀ id k, s'.offlineEntry id = some k → s.offlineEntry id = some k) : s'.Indexed := by
  refine h.congr_pending hp hpending (fun k x hx => h.offlineFiled k x (hgone k x hx))
    (fun k k' x x' hx hx' hid => h.offlineUnique k k' x x' (hgone k x hx) (hgone k' x' hx') hid) fun id k hk => ?_
  obtain ⟨hkey, hall⟩ := h.offlineLocated id k (hoffline id k hk)
  exact ⟨hkey, fun k' x hx hid => hall k' x (hgone k' x hx) hid⟩

/-- Where the index has an entry, it is gone with the message; where it has none, the message goes alone. -/
theorem deletePendingMessage_eq (s : IndexedStore) (f : Faults) (a : String) :
    s.storage.deletePendingMessage f a = match s.pendingEntry a with
      | some fullKey => match treeRemove f "pending_messages" fullKey s.storage.pendingMessages with
        | (.error e, _) => (.error e, s.storage)
        | (.ok (), t) =>
          let w := treeRemove f "message_index" (indexKey a) s.storage.messageIndex
          (w.1, { s.storage with pendingMessages := t, messageIndex := w.2 })
      | none => match s.storage.pendingMessages.toList.find? fun e => Text.HasSuffix (":" ++ a) e.1 with
        | none => (.ok (), s.storage)
        | some e =>
          let w := treeRemove f "pending_messages" e.1 s.storage.pendingMessages
          (w.1, { s.storage with pendingMessages := w.2 }) := rfl

theorem indexed_deletePending (h : s.Indexed) (hc : s.Careful (.deletePending f a)) :
    (s.step (.deletePending f a)).Indexed := by
  show Indexed { s with storage := (s.storage.deletePendingMessage f a).2 }
  rw [deletePendingMessage_eq]
  cases hentry : s.pendingEntry a with
  | some fullKey =>
    dsimp only
    by_cases hf : f "pending_messages" fullKey = true
    · rw [treeRemove, if_pos hf]
      exact h
    rw [Bool.not_eq_true] at hf
    rw [treeRemove_ok hf, treeRemove_ok (hc.1 fullKey hentry hf)]
    obtain ⟨m, hm, hid⟩ := h.pendingLive a fullKey hentry
    refine h.remove_pending rfl (fun _ _ => get_erase_some) (fun id k hk => ?_) fun id k hk => ?_
    · unfold offlineEntry at hk ⊢
      dsimp only at hk
      rw [get_erase] at hk
      split_ifs at hk
      · cases hk
      · exact hk
    · unfold pendingEntry at hk
      dsimp only at hk ⊢
      rw [get_erase] at hk
      split_ifs at hk with hia
      · cases hk
      · obtain ⟨x, hx, hxid⟩ := h.pendingLive id k hk
        refine ⟨x, ?_, hxid⟩
        rw [get_erase, if_neg]
        · exact hx
        · rintro rfl
          have hmx : m = x := Option.some.inj (hm.symm.trans hx)
          exact hia (by rw [← hid, hmx, hxid])
  | none =>
    dsimp only
    cases hfind : s.storage.pendingMessages.toList.find? fun e => Text.HasSuffix (":" ++ a) e.1 with
    | none => exact h
    | some e =>
      refine h.remove_pending rfl (fun _ _ => get_treeRemove_some) (fun _ _ hk => hk) fun id k hk => ?_
      obtain ⟨x, hx, hxid⟩ := h.pendingLive id k hk
      refine ⟨x, ?_, hxid⟩
      dsimp only
      rw [get_treeRemove, if_neg]
      · exact hx
      · -- the index has no entry for the id of what goes
        rintro ⟨rfl, hf⟩
        have hid : e.2.id = a := hc.2 hentry e hfind hf
        have hex : e.2 = x := Option.some.inj (((mem_iter _).1 (List.mem_of_find?_eq_some hfind)).symm.trans hx)
        rw [← hxid, ← hex, hid] at hk
        exact absurd (hentry.symm.trans hk) (by simp)

theorem deleteOffline_eq (s : IndexedStore) (f : Faults) (a : String) :
    s.deleteOffline f a = match s.offlineEntry a with
      | some fullKey => match treeRemove f "offline_messages" fullKey s.offline with
        | (.error _, _) => (.error .storage, s)
        | (.ok (), t) =>
          let w := treeRemove f "message_index" (indexKey a) s.storage.messageIndex
          (w.1.mapError fun _ => .storage, { storage := { s.storage with messageIndex := w.2 }, offline := t })
      | none => match s.offline.toList.find? fun e => e.2.messageId = some a with
        | none => (.error (.messageNotFound a), s)
        | some e =>
          let w := treeRemove f "offline_messages" e.1 s.offline
          (w.1.mapError fun _ => .storage, { s with offline := w.2 }) := rfl

theorem indexed_deleteOffline (h : s.Indexed) : (s.step (.deleteOffline f a)).Indexed := by
  show Indexed (s.deleteOffline f a).2
  rw [deleteOffline_eq]
  cases s.offlineEntry a with
  | some fullKey =>
    dsimp only
    by_cases hf : f "offline_messages" fullKey = true
    · rw [treeRemove, if_pos hf]
      exact h
    rw [Bool.not_eq_true] at hf
    rw [treeRemove_ok hf]
    refine h.remove_offline rfl (fun _ _ => get_erase_some) (fun id k hk => ?_) fun id k hk => ?_
    all_goals
      dsimp only [pendingEntry, offlineEntry] at hk ⊢
      rw [get_treeRemove] at hk
      split_ifs at hk
      · cases hk
      · exact hk
  | none =>
    dsimp only
    cases s.offline.toList.find? fun e => e.2.messageId = some a with
    | none => exact h
    | some e => exact h.remove_offline rfl (fun _ _ => get_treeRemove_some) (fun _ _ hk => hk) fun _ _ hk => hk

theorem indexed_cleanupExpired (h : s.Indexed) {now : ℤ} : (s.step (.cleanupExpired f now)).Indexed :=
  h.remove_offline rfl (fun _ _ => get_treeRemoveAll_some) (fun _ _ hk => hk) fun _ _ hk => hk

theorem indexed_step (h : s.Indexed) : ∀ op, s.Careful op → (s.step op).Indexed
  | .storePending _ _ _, hc => indexed_storePending h hc
  | .storeOffline _ _, hc => indexed_storeOffline h hc
  | .deletePending _ _, hc => indexed_deletePending h hc
  | .deleteOffline _ _, _ => indexed_deleteOffline h
  | .cleanupExpired _ _, _ => indexed_cleanupExpired h
  | .query _, _ => h

/-! What a step does along a careful run -/

/-- Where one key has everything with the id, and nothing else, erasing the key removes exactly that. -/
theorem removesExactly_erase {β : Type} {hasId : β → Prop} {t : SledTree β} {k : String}
    (hk : ∀ v, t[k]? = some v → hasId v) (hunique : ∀ (k' : String) v, t[k']? = some v → hasId v → k' = k) :
    RemovesExactly hasId t (t.erase k) := by
  intro k' v
  rw [get_erase]
  split_ifs with heq
  · subst heq
    exact iff_of_false (by simp) fun ⟨hv, hnot⟩ => hnot (hk v hv)
  · exact ⟨fun hv => ⟨hv, fun hid => heq (hunique k' v hv hid).symm⟩, And.left⟩

theorem removesExactly_of_none {β : Type} {hasId : β → Prop} {t : SledTree β}
    (hnone : ∀ (k : String) v, t[k]? = some v → ¬ hasId v) : RemovesExactly hasId t t :=
  fun k v => ⟨fun hv => ⟨hv, hnone k v hv⟩, And.left⟩

theorem exact_deletePending (h : s.Indexed) (hc : s.Careful (.deletePending f a)) :
    s.Exact (.deletePending f a) := by
  intro hok
  refine ⟨?_, rfl⟩
  show RemovesExactly _ _ (s.storage.deletePendingMessage f a).2.pendingMessages
  rw [deletePendingMessage_eq] at hok ⊢
  cases hentry : s.pendingEntry a with
  | some fullKey =>
    rw [hentry] at hok
    dsimp only at hok ⊢
    obtain ⟨m, hm, hid⟩ := h.pendingLive a fullKey hentry
    by_cases hf : f "pending_messages" fullKey = true
    · rw [treeRemove, if_pos hf] at hok
      cases hok
    rw [Bool.not_eq_true] at hf
    rw [treeRemove_ok hf]
    refine removesExactly_erase (fun x hx => ?_) fun k' x hx hxid =>
      h.pendingUnique k' fullKey x m hx hm (hxid.trans hid.symm)
    obtain rfl : m = x := Option.some.inj (hm.symm.trans hx)
    exact hid
  | none =>
    rw [hentry] at hok
    dsimp only at hok ⊢
    cases hfind : s.storage.pendingMessages.toList.find? fun e => Text.HasSuffix (":" ++ a) e.1 with
    | none =>
      refine removesExactly_of_none fun k x hx hid => ?_
      obtain ⟨peerDid, rfl⟩ := h.pendingFiled k x hx
      have hnot := List.find?_eq_none.1 hfind (pendingKey peerDid x.id, x) ((mem_iter _).2 hx)
      rw [hid] at hnot
      exact hnot (decide_eq_true (hasSuffix_pendingKey peerDid a))
    | some e =>
      rw [hfind] at hok
      dsimp only at hok ⊢
      have hmem : s.storage.pendingMessages[e.1]? = some e.2 := (mem_iter _).1 (List.mem_of_find?_eq_some hfind)
      by_cases hf : f "pending_messages" e.1 = true
      · rw [treeRemove, if_pos hf] at hok
        cases hok
      rw [Bool.not_eq_true] at hf
      rw [treeRemove_ok hf]
      have hid : e.2.id = a := hc.2 hentry e hfind hf
      refine removesExactly_erase (fun x hx => ?_) fun k' x hx hxid =>
        h.pendingUnique k' e.1 x e.2 hx hmem (hxid.trans hid.symm)
      obtain rfl : e.2 = x := Option.some.inj (hmem.symm.trans hx)
      exact hid

theorem exact_deleteOffline (h : s.Indexed) : s.Exact (.deleteOffline f a) := by
  intro hok
  show RemovesExactly _ _ (s.deleteOffline f a).2.offline ∧ (s.deleteOffline f a).2.storage.pendingMessages = _
  rw [deleteOffline_eq] at hok ⊢
  cases hentry : s.offlineEntry a with
  | some fullKey =>
    rw [hentry] at hok
    dsimp only at hok ⊢
    by_cases hf : f "offline_messages" fullKey = true
    · rw [treeRemove, if_pos hf] at hok
      cases hok
    rw [Bool.not_eq_true] at hf
    rw [treeRemove_ok hf]
    obtain ⟨⟨token, ts, hkey⟩, hall⟩ := h.offlineLocated a fullKey hentry
    refine ⟨removesExactly_erase (fun x hx => ?_) hall, rfl⟩
    -- what lies under the key is of the id that the key is made of
    obtain ⟨m, hm, hfiled⟩ := h.offlineFiled fullKey x hx
    unfold OfflineMessageEnvelope.messageId
    rw [hm, offlineKey_id (hkey.symm.trans hfiled.symm)]
    rfl
  | none =>
    rw [hentry] at hok
    dsimp only at hok ⊢
    cases hfind : s.offline.toList.find? fun e => e.2.messageId = some a with
    | none =>
      rw [hfind] at hok
      cases hok
    | some e =>
      rw [hfind] at hok
      dsimp only at hok ⊢
      have hid : e.2.messageId = some a := by simpa using List.find?_some hfind
      have hmem : s.offline[e.1]? = some e.2 := (mem_iter _).1 (List.mem_of_find?_eq_some hfind)
      by_cases hf : f "offline_messages" e.1 = true
      · rw [treeRemove, if_pos hf] at hok
        cases hok
      rw [Bool.not_eq_true] at hf
      rw [treeRemove_ok hf]
      refine ⟨removesExactly_erase (fun x hx => ?_) fun k' x hx hxid =>
        h.offlineUnique k' e.1 x e.2 hx hmem (hxid.trans hid.symm), rfl⟩
      obtain rfl : e.2 = x := Option.some.inj (hmem.symm.trans hx)
      exact hid

theorem exact_query (h : s.Indexed) (hc : s.Careful (.query a)) : s.Exact (.query a) := by
  show s.storage.isMessagePending a = true ↔ _
  unfold isMessagePending
  rw [Bool.or_eq_true, List.any_eq_true]
  constructor
  · rintro (hentry | ⟨e, he, hsuffix⟩)
    · obtain ⟨v, hv, hpre⟩ := (Option.any_eq_true _ _).1 hentry
      obtain ⟨m, hm, hid⟩ := h.pendingLive a _ (show s.pendingEntry a = some (String.ofList (v.toList.drop 8)) by
        unfold pendingEntry indexedKey
        rw [hv, Option.bind_some, if_pos (of_decide_eq_true hpre)])
      exact ⟨_, m, hm, hid⟩
    · obtain ⟨e', he', hid⟩ := hc e he (of_decide_eq_true hsuffix)
      exact ⟨e'.1, e'.2, (mem_iter _).1 he', hid⟩
  · rintro ⟨k, m, hm, rfl⟩
    obtain ⟨peerDid, rfl⟩ := h.pendingFiled k m hm
    exact Or.inr ⟨(pendingKey peerDid m.id, m), (mem_iter _).2 hm,
      decide_eq_true (hasSuffix_pendingKey peerDid m.id)⟩

theorem exact_of_careful (h : s.Indexed) : ∀ op, s.Careful op → s.Exact op
  | .storePending _ _ _, _ => trivial
  | .storeOffline _ _, _ => trivial
  | .deletePending _ _, hc => exact_deletePending h hc
  | .deleteOffline _ _, _ => exact_deleteOffline h
  | .cleanupExpired _ _, _ => trivial
  | .query _, hc => exact_query h hc

/-- Along every careful run, queries answer by what is pending and deletes by id remove exactly what has the id. -/
theorem index_exact (ops : List IndexOp) (h : StepSystem.Guarded indexSys Careful .empty ops) :
    StepSystem.Guarded indexSys Exact .empty ops :=
  StepSystem.Guarded.imp (M := indexSys) (I := Indexed) (fun _ op hi hc => exact_of_careful hi op hc)
    (fun _ op hi hc => indexed_step hi op hc) indexed_empty h

end IndexedStore
namespace IndexExactness

def groupMessage (id : String) : GroupMessage :=
  { id := id, senderDid := "did:a", groupId := "g", mlsCiphertext := [], timestamp := 1, type := 1, replyTo := none }

/-- A group message that is left at the relay for one of the members. -/
def leftFor (member : UInt8) (id : String) : OfflineMessageEnvelope :=
  { mailboxToken := [member], message := some (.group (groupMessage id)), storedAt := 1, expiresAt := 9 }

def pendingMessage (id : String) : DirectMessage :=
  { id := id, senderDid := "did:a", recipientDid := "did:b", ciphertext := [], olmMessageType := 1, signature := []
    timestamp := 1, type := 1, replyTo := none, senderIdentityKey := none }

/-- Messages of either kind stored, asked for, sent and delivered, and the rest run out. -/
theorem delivered_exactly : StepSystem.Guarded indexSys IndexedStore.Exact .empty
    [.storePending noFaults "did:b" (pendingMessage "x"), .storeOffline noFaults (leftFor 0 "y"),
      .storeOffline noFaults (leftFor 1 "z"), .query "x", .deletePending noFaults "x", .query "x",
      .deleteOffline noFaults "y", .cleanupExpired noFaults 10] :=
  IndexedStore.index_exact _ (by decide +kernel)

/-- The message left for two members: the index has the second, so the first is still there. -/
theorem first_copy_stays : ¬ ∀ ops : List IndexOp, StepSystem.Guarded indexSys IndexedStore.Exact .empty ops := by
  intro h
  obtain ⟨-, -, hexact, -⟩ := h [.storeOffline noFaults (leftFor 0 "x"), .storeOffline noFaults (leftFor 1 "x"),
    .deleteOffline noFaults "x"]
  obtain ⟨hremoved, -⟩ := hexact (by decide +kernel)
  exact ((hremoved (offlineKey [0] 1 "x") (leftFor 0 "x")).1 (by decide +kernel)).2 (by decide +kernel)

end IndexExactness
end Variance
