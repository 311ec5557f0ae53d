import Mathlib.Data.List.TakeWhile
import Variance.Proofs.HistoryPaging
import Variance.Sanity.Since
import Variance.Spec.KeyOrder

/-! The keys of messages stand in the order of time, and all that reads them agrees, just where no id has a colon, no
timestamp is negative or the greatest, and no other name begins with a group's name and a colon. -/

namespace Variance

open Text

/-! What a key gives back -/

section
variable {p id : String} {t : ℤ}

theorem afterLastColon_eq (key : String) : afterLastColon key = (rsplitOnce ':' key).map (·.2) := by
  unfold afterLastColon rsplitOnce
  dsimp only
  split_ifs <;> rfl

theorem afterLastColon_append (h : ':' ∉ id.toList) : afterLastColon (p ++ ":" ++ id) = some id := by
  have hsplit : rsplitOnce ':' (p ++ ":" ++ id) = some (p, id) := rsplitOnce_append h
  rw [afterLastColon_eq, hsplit]
  rfl

/-- No colon stands after the last one. -/
theorem colon_notMem_of_afterLastColon {key : String} (h : afterLastColon key = some id) : ':' ∉ id.toList := by
  unfold afterLastColon at h
  split_ifs at h
  obtain rfl := Option.some.inj h
  intro hc
  rw [String.toList_ofList, List.mem_reverse] at hc
  simpa using List.mem_takeWhile_imp hc

theorem parseGroupKeyTimestamp_groupKey (h : ':' ∉ id.toList) (ht : IsI64 t) :
    parseGroupKeyTimestamp (LocalMessageStorage.groupKey p t id) = some t := by
  rw [LocalMessageStorage.groupKey, parseGroupKeyTimestamp, rsplitOnce_filed h]
  dsimp only
  rw [rsplitOnce_stamped]
  exact parseI64_pad20 ht.1 ht.2

theorem parseDirectKey_directKey {a b : Did} (h : ':' ∉ id.toList) (ht : IsI64 t) :
    parseDirectKey (LocalMessageStorage.directKey a b t id) = some (LocalMessageStorage.conversationId a b, t) := by
  rw [LocalMessageStorage.directKey, parseDirectKey, rsplitOnce_filed h]
  dsimp only
  rw [rsplitOnce_stamped, Option.bind_some, parseI64_pad20 ht.1 ht.2]
  rfl

end

/-! The order of keys -/

theorem toLex_lt_iff {a b : ℤ} {i j : String} : toLex (a, i) < toLex (b, j) ↔ a < b ∨ a = b ∧ i < j :=
  Prod.Lex.toLex_lt_toLex

/-- So two keys are in order just where their timestamps are not different negative ones. -/
theorem filedUnder_lt_iff_stamp {p i j : String} {a b : ℤ} (ha : IsI64 a) (hb : IsI64 b)
    (h : a < 0 → b < 0 → a = b) :
    p ++ pad20 a ++ ":" ++ i < p ++ pad20 b ++ ":" ++ j ↔ toLex (a, i) < toLex (b, j) := by
  rw [filedUnder_lt_iff ha hb, stampedBefore_iff h, toLex_lt_iff]

theorem eq_of_filedUnder_lt_iff {p i j : String} {a b : ℤ} (ha : IsI64 a) (hb : IsI64 b) (ha0 : a < 0) (hb0 : b < 0)
    (h : p ++ pad20 a ++ ":" ++ i < p ++ pad20 b ++ ":" ++ j ↔ toLex (a, i) < toLex (b, j)) : a = b := by
  rw [filedUnder_lt_iff ha hb, toLex_lt_iff] at h
  by_contra hne
  unfold StampedBefore at h
  rcases lt_or_gt_of_ne hne with hab | hba
  · have := h.mpr (Or.inl hab)
    omega
  · have := h.mp (Or.inl (Or.inr ⟨ha0, hba⟩))
    omega

namespace LocalMessageStorage
variable {s : LocalMessageStorage} {groupId : String} {a b : Did} {k : String}

/-! What is stored was stored by an operation -/

theorem cacheDirect_messages {f : Faults} {content : MessageContent} :
    (s.perform (.cacheDirect f k content)).directMessages = s.directMessages ∧
      (s.perform (.cacheDirect f k content)).groupMessages = s.groupMessages := by
  unfold perform
  dsimp only
  split
  · exact ⟨rfl, rfl⟩
  · exact ⟨rfl, rfl⟩

theorem cacheGroup_messages {f : Faults} {content : MessageContent} :
    (s.perform (.cacheGroup f k content)).directMessages = s.directMessages ∧
      (s.perform (.cacheGroup f k content)).groupMessages = s.groupMessages := by
  unfold perform
  dsimp only
  split
  · exact ⟨rfl, rfl⟩
  · exact ⟨rfl, rfl⟩

theorem perform_group_some {op : StorageOp} {m : GroupMessage} (h : (s.perform op).groupMessages[k]? = some m) :
    s.groupMessages[k]? = some m ∨ ∃ f, op = .storeGroup f m ∧ m.key = k := by
  cases op with
  | storeDirect f m' => exact Or.inl h
  | storeGroup f m' =>
    rcases get_treeInsert_some h with ⟨hk, rfl⟩ | hold
    · exact Or.inr ⟨f, rfl, hk⟩
    · exact Or.inl hold
  | cacheDirect f key content =>
    rw [cacheDirect_messages.2] at h
    exact Or.inl h
  | cacheGroup f key content =>
    rw [cacheGroup_messages.2] at h
    exact Or.inl h
  | cleanupDirect f cutoffMs => exact Or.inl h
  | cleanupGroup f cutoffMs => exact Or.inl (get_treeRemoveAll_some h)
  | deleteConversation f d d' =>
    have hsame : (s.perform (.deleteConversation f d d')).groupMessages = s.groupMessages :=
      deleteDirectConversation_group
    rw [hsame] at h
    exact Or.inl h
  | deleteDirect f d d' ts id =>
    have hsame : (s.perform (.deleteDirect f d d' ts id)).groupMessages = s.groupMessages := deleteDirectById_group.1
    rw [hsame] at h
    exact Or.inl h
  | deleteGroup f g =>
    have hrest : (s.perform (.deleteGroup f g)).groupMessages =
        (treeRemoveAll f "group_messages" ((scanPrefix (g ++ ":") s.groupMessages).map (·.1)) s.groupMessages).2 :=
      deleteGroupMessages_groupMessages
    rw [hrest] at h
    exact Or.inl (get_treeRemoveAll_some h)

theorem perform_direct_some {op : StorageOp} {m : DirectMessage} (h : (s.perform op).directMessages[k]? = some m) :
    s.directMessages[k]? = some m ∨ ∃ f, op = .storeDirect f m ∧ m.key = k := by
  cases op with
  | storeDirect f m' =>
    rcases get_treeInsert_some h with ⟨hk, rfl⟩ | hold
    · exact Or.inr ⟨f, rfl, hk⟩
    · exact Or.inl hold
  | storeGroup f m' => exact Or.inl h
  | cacheDirect f key content =>
    rw [cacheDirect_messages.1] at h
    exact Or.inl h
  | cacheGroup f key content =>
    rw [cacheGroup_messages.1] at h
    exact Or.inl h
  | cleanupDirect f cutoffMs => exact Or.inl (get_treeRemoveAll_some h)
  | cleanupGroup f cutoffMs => exact Or.inl h
  | deleteConversation f d d' => exact Or.inl (deleteDirectConversation_some h)
  | deleteDirect f d d' ts id => exact Or.inl (deleteDirectById_some h)
  | deleteGroup f g =>
    have hsame : (s.perform (.deleteGroup f g)).directMessages = s.directMessages := deleteGroupMessages_direct.1
    rw [hsame] at h
    exact Or.inl h

/-- What a run leaves in a tree was there before it or is stored by one of its steps, if that is so of each step. -/
theorem run_some {β : Type} {tree : LocalMessageStorage → SledTree β} {Stores : StorageOp → String → β → Prop}
    (hstep : ∀ s op k v, (tree (perform s op))[k]? = some v → (tree s)[k]? = some v ∨ Stores op k v)
    {ops : List StorageOp} {v : β} (h : (tree (ops.foldl perform s))[k]? = some v) :
    (tree s)[k]? = some v ∨ ∃ op ∈ ops, Stores op k v := by
  induction ops generalizing s with
  | nil => exact Or.inl h
  | cons op ops ih =>
    rcases ih h with hfirst | ⟨op', hop, hstores⟩
    · rcases hstep s op k v hfirst with hold | hstores
      · exact Or.inl hold
      · exact Or.inr ⟨op, List.mem_cons_self, hstores⟩
    · exact Or.inr ⟨op', List.mem_cons_of_mem _ hop, hstores⟩

theorem stored_group {ops : List StorageOp} {m : GroupMessage}
    (h : (ops.foldl perform .empty).groupMessages[k]? = some m) :
    ∃ f, StorageOp.storeGroup f m ∈ ops ∧ m.key = k := by
  rcases run_some (fun _ _ _ _ => perform_group_some) h with hempty | ⟨_, hop, f, rfl, hk⟩
  · simp [LocalMessageStorage.empty] at hempty
  · exact ⟨f, hop, hk⟩

theorem stored_direct {ops : List StorageOp} {m : DirectMessage}
    (h : (ops.foldl perform .empty).directMessages[k]? = some m) :
    ∃ f, StorageOp.storeDirect f m ∈ ops ∧ m.key = k := by
  rcases run_some (fun _ _ _ _ => perform_direct_some) h with hempty | ⟨_, hop, f, rfl, hk⟩
  · simp [LocalMessageStorage.empty] at hempty
  · exact ⟨f, hop, hk⟩

theorem filed_run (ops : List StorageOp) : Filed (ops.foldl perform .empty) where
  direct _ _ h := (stored_direct h).choose_spec.2
  group _ _ h := (stored_group h).choose_spec.2

/-- A store whose messages lie under their keys, with timestamps such as the wire carries. -/
structure Kept (s : LocalMessageStorage) : Prop extends Filed s where
  group_i64 : ∀ (k : String) (m : GroupMessage), s.groupMessages[k]? = some m → IsI64 m.timestamp
  direct_i64 : ∀ (k : String) (m : DirectMessage), s.directMessages[k]? = some m → IsI64 m.timestamp

theorem kept_run {ops : List StorageOp} (h : ∀ op ∈ ops, op.Typed) : Kept (ops.foldl perform .empty) where
  toFiled := filed_run ops
  group_i64 k m hm := by
    obtain ⟨f, hop, -⟩ := stored_group hm
    exact h _ hop
  direct_i64 k m hm := by
    obtain ⟨f, hop, -⟩ := stored_direct hm
    exact h _ hop

/-! The messages of a group and of a conversation -/

theorem Filed.mem_groupHistory (h : s.Filed) {m : GroupMessage} :
    m ∈ s.groupHistory groupId ↔ s.groupMessages[m.key]? = some m ∧ m.groupId = groupId := by
  rw [groupHistory, List.mem_filter, decide_eq_true_iff, List.mem_map]
  refine and_congr_left fun _ => ⟨?_, fun hm => ⟨(m.key, m), (mem_iter _).2 hm, rfl⟩⟩
  rintro ⟨⟨k, m⟩, he, rfl⟩
  have hk := (mem_iter _).1 he
  exact (h.group k m hk).symm ▸ hk

theorem Filed.mem_directHistory (h : s.Filed) {m : DirectMessage} :
    m ∈ s.directHistory a b ↔ s.directMessages[m.key]? = some m ∧ m.chat = .direct s(a, b) := by
  rw [directHistory, List.mem_filter, decide_eq_true_iff, List.mem_map]
  refine and_congr_left fun _ => ⟨?_, fun hm => ⟨(m.key, m), (mem_iter _).2 hm, rfl⟩⟩
  rintro ⟨⟨k, m⟩, he, rfl⟩
  have hk := (mem_iter _).1 he
  exact (h.direct k m hk).symm ▸ hk

/-! What the cleanups take -/

theorem mem_oldGroupKeys {m : GroupMessage} {ts c : ℤ} (hm : s.groupMessages[k]? = some m)
    (hp : parseGroupKeyTimestamp k = some ts) : k ∈ s.oldGroupKeys c ↔ ts < c := by
  have hmem : k ∈ s.groupMessages.toList.map (·.1) := List.mem_map.2 ⟨(k, m), (mem_iter _).2 hm, rfl⟩
  rw [oldGroupKeys, List.mem_filter, hp, and_iff_right hmem, decide_eq_true_iff]

theorem mem_oldDirectKeys {m : DirectMessage} {ts c : ℤ} {conv : String} (hm : s.directMessages[k]? = some m)
    (hp : parseDirectKey k = some (conv, ts)) : k ∈ s.oldDirectKeys c ↔ ts < c := by
  have hmem : k ∈ s.directMessages.toList.map (·.1) := List.mem_map.2 ⟨(k, m), (mem_iter _).2 hm, rfl⟩
  rw [oldDirectKeys, List.mem_filter, hp, and_iff_right hmem, decide_eq_true_iff]

/-- Where no removal fails, just the listed entries go. -/
theorem removed_iff {β : Type} {tree : String} {keys : List String} {t : SledTree β} {v : β} (hv : t[k]? = some v) :
    (treeRemoveAll noFaults tree keys t).2[k]? = none ↔ k ∈ keys := by
  by_cases hk : k ∈ keys
  · exact iff_of_true (get_treeRemoveAll_of_mem (fun _ _ => rfl) hk) hk
  · rw [get_treeRemoveAll_of_notMem hk, hv]
    exact iff_of_false (fun h => nomatch h) hk

/-! A group's range of keys -/

theorem fetchGroup_none (limit : ℕ) :
    s.fetchGroup groupId limit none = ((s.log groupId).reverse.take limit).reverse := by
  rw [fetchGroup, pageBefore, log, ← List.map_reverse]
  exact congrArg (fun l => (List.take limit l).reverse) (List.filter_eq_self.2 fun _ _ => rfl)

theorem fetchGroup_one : s.fetchGroup groupId 1 none = (s.log groupId).getLast?.toList := by
  rw [fetchGroup_none, List.take_one, List.head?_reverse]
  cases (s.log groupId).getLast? with
  | none => rfl
  | some m => rfl

theorem latestGroupTimestamp_eq :
    s.latestGroupTimestamp groupId = (s.log groupId).getLast?.map (·.timestamp) := by
  rw [latestGroupTimestamp, log, List.getLast?_map, Option.map_map]
  rfl

/-- The scan that starts at a time's key gives the newer messages if and only if they are what lies from there on. -/
theorem since_iff {t : ℤ} :
    (∀ limit, s.fetchGroupSince groupId t limit <+: s.newerThan groupId t ∧
      ((s.newerThan groupId t).length ≤ limit → s.fetchGroupSince groupId t limit = s.newerThan groupId t)) ↔
      s.range groupId t = s.newerThan groupId t := by
  constructor
  · intro h
    have hall := (h ((s.newerThan groupId t).length + (s.range groupId t).length)).2 (Nat.le_add_right _ _)
    rwa [fetchGroupSince_eq, List.take_of_length_le (by omega)] at hall
  · intro h limit
    rw [fetchGroupSince_eq, h]
    exact ⟨List.take_prefix _ _, fun hl => List.take_of_length_le (by omega)⟩

theorem isI64_saturatingSucc {t : ℤ} (h : IsI64 t) : IsI64 (saturatingSucc t) := by
  unfold IsI64 saturatingSucc at *
  omega

/-- The scan passes over the keys that come before the time's next. -/
theorem sinceKey_le_groupKey {t ts : ℤ} {id : String} (ht : IsI64 t) (hts : IsI64 ts) :
    sinceKey groupId t ≤ groupKey groupId ts id ↔ ¬ StampedBefore ts (saturatingSucc t) := by
  have hend : ¬ ":" ++ id < ":" := by
    rw [String.lt_iff, String.toList_append]
    exact List.le_append_left
  rw [← not_lt, groupKey_eq, sinceKey, stamped_lt_iff hts (isI64_saturatingSucc ht), not_or]
  exact and_iff_left fun h => hend h.2

theorem notBefore_succ_iff {t ts : ℤ} (h0 : 0 ≤ ts) (h1 : ts < 2 ^ 63 - 1) :
    ¬ StampedBefore ts (saturatingSucc t) ↔ t < ts := by
  unfold StampedBefore saturatingSucc
  omega

/-- A timestamp that is found to be newer by all times that it is newer than, and by no others, is not negative, nor
the greatest. -/
theorem timed_of_notBefore_iff {ts : ℤ} (hts : IsI64 ts)
    (h : ∀ t, IsI64 t → (¬ StampedBefore ts (saturatingSucc t) ↔ t < ts)) : 0 ≤ ts ∧ ts < 2 ^ 63 - 1 := by
  have hself := h ts hts
  have hbefore := h (-3) (by decide)
  unfold StampedBefore saturatingSucc at hself hbefore
  unfold IsI64 at hts
  omega

theorem mem_log_scan {e : String × GroupMessage} (h : e ∈ scanPrefix (groupId ++ ":") s.groupMessages) :
    e.2 ∈ s.log groupId := List.mem_map_of_mem h

/-- Where the range has the group's messages only, it is the group's history. -/
theorem Filed.log_eq (h : s.Filed) (hown : ∀ e ∈ scanPrefix (groupId ++ ":") s.groupMessages, e.2.groupId = groupId) :
    s.log groupId = s.groupHistory groupId := by
  rw [log, groupHistory, List.filter_map, scanPrefix]
  refine congrArg _ (List.filter_congr fun e he => ?_)
  rw [Function.comp_apply, decide_eq_decide]
  exact ⟨fun hp => hown e (List.mem_filter.2 ⟨he, decide_eq_true hp⟩), h.group_prefix he⟩

/-- The range is in the order of the keys. -/
theorem Filed.keys_log (h : s.Filed) : (s.log groupId).Pairwise fun a b => a.key < b.key := by
  refine List.pairwise_map.2 (((keys_sorted s.groupMessages).filter _).imp_of_mem fun {x y} hx hy hxy => ?_)
  rwa [← h.group x.1 x.2 (mem_scanPrefix.1 hx).1, ← h.group y.1 y.2 (mem_scanPrefix.1 hy).1] at hxy

/-- So its last message is the latest, if the keys are in order. -/
theorem Filed.last_isLatest (h : s.Filed) (hlog : s.log groupId = s.groupHistory groupId)
    (horder : ∀ m ∈ s.groupHistory groupId, ∀ m' ∈ s.groupHistory groupId, m.key < m'.key ↔ m.stamp < m'.stamp)
    {m : GroupMessage} (hm : (s.log groupId).getLast? = some m) : s.IsLatest groupId m := by
  obtain ⟨init, hinit⟩ := List.getLast?_eq_some_iff.1 hm
  have hsorted : (init ++ [m]).Pairwise fun a b => a.key < b.key := hinit ▸ h.keys_log
  have hin : m ∈ s.groupHistory groupId := hlog ▸ List.mem_of_getLast? hm
  refine ⟨hin, fun m' hm' => ?_⟩
  have hmem : m' ∈ init ++ [m] := hinit ▸ hlog.symm ▸ hm'
  rcases List.mem_append.1 hmem with hbefore | hlast
  · have hlt := (List.pairwise_append.1 hsorted).2.2 m' hbefore m (List.mem_singleton_self m)
    exact le_of_lt ((horder m' hm' m hin).1 hlt)
  · rw [List.mem_singleton.1 hlast]

/-- From a time's key on lies what its next timestamp does not come after. -/
theorem Kept.range_eq (h : s.Kept) (hlog : s.log groupId = s.groupHistory groupId) {t : ℤ} (ht : IsI64 t) :
    s.range groupId t = (s.groupHistory groupId).filter fun m => ¬ StampedBefore m.timestamp (saturatingSucc t) := by
  rw [← hlog, log, range, List.filter_map]
  refine congrArg _ (List.filter_congr fun e he => ?_)
  have hin : e.2 ∈ s.groupHistory groupId := hlog ▸ mem_log_scan he
  obtain ⟨hstored, hgroup⟩ := h.mem_groupHistory.1 hin
  have hkey : e.1 = groupKey groupId e.2.timestamp e.2.id := by
    rw [← h.group e.1 e.2 (mem_scanPrefix.1 he).1, GroupMessage.key, hgroup]
  rw [Function.comp_apply, decide_eq_decide, hkey]
  exact sinceKey_le_groupKey ht (h.group_i64 _ _ hstored)

/-- Which are the newer messages just if each is found to be newer by the times that it is newer than. -/
theorem Kept.range_eq_newerThan_iff (h : s.Kept) (hlog : s.log groupId = s.groupHistory groupId) {t : ℤ}
    (ht : IsI64 t) : s.range groupId t = s.newerThan groupId t ↔
      ∀ m ∈ s.groupHistory groupId, ¬ StampedBefore m.timestamp (saturatingSucc t) ↔ t < m.timestamp := by
  rw [h.range_eq hlog ht, newerThan]
  constructor
  · intro heq m hm
    have hmem := congrArg (m ∈ ·) heq
    simpa [List.mem_filter, hm] using hmem
  · intro hall
    exact List.filter_congr fun m hm => decide_eq_decide.2 (hall m hm)

/-! Agreement -/

theorem toList_groupKey (g : String) (ts : ℤ) (id : String) :
    (groupKey g ts id).toList = (g ++ ":" ++ pad20 ts).toList ++ ':' :: id.toList := by
  simp [groupKey, String.toList_append]

theorem hasSuffix_colon_iff {x key : String} : HasSuffix (":" ++ x) key ↔ ':' :: x.toList <:+ key.toList := by
  rw [HasSuffix, String.toList_append]
  rfl

/-- An id is found in the range just where a message of the group has it. -/
theorem GroupPlain.has_iff {messageId : String} (h : s.GroupPlain groupId messageId) (hs : s.Filed)
    (hlog : s.log groupId = s.groupHistory groupId) :
    s.hasGroupMessage groupId messageId = true ↔ ∃ m ∈ s.groupHistory groupId, m.id = messageId := by
  rw [hasGroupMessage, List.any_eq_true]
  constructor
  · rintro ⟨e, he, hsuffix⟩
    have hin : e.2 ∈ s.groupHistory groupId := hlog ▸ mem_log_scan he
    have hkey : e.2.key = e.1 := hs.group e.1 e.2 (mem_scanPrefix.1 he).1
    rw [decide_eq_true_iff, ← hkey] at hsuffix
    have hasked : ':' ∉ messageId.toList := fun hc => h.asked hc e.2 hin hsuffix
    refine ⟨e.2, hin, ?_⟩
    rw [hasSuffix_colon_iff, GroupMessage.key, toList_groupKey] at hsuffix
    exact String.toList_inj.1 ((cons_suffix_iff (h.ids e.2 hin) hasked).1 hsuffix).symm
  · rintro ⟨m, hm, rfl⟩
    obtain ⟨hstored, hgroup⟩ := hs.mem_groupHistory.1 hm
    have hmem : (m.key, m) ∈ scanPrefix (groupId ++ ":") s.groupMessages :=
      mem_scanPrefix.2 ⟨hstored, hs.group_prefix ((mem_iter _).2 hstored) hgroup⟩
    refine ⟨(m.key, m), hmem, decide_eq_true ?_⟩
    rw [hasSuffix_colon_iff, GroupMessage.key, toList_groupKey]
    exact List.suffix_append _ _

theorem GroupPlain.agrees {messageId : String} (h : s.GroupPlain groupId messageId) (hs : s.Kept) :
    s.GroupAgrees groupId messageId := by
  have hlog : s.log groupId = s.groupHistory groupId := hs.log_eq h.own
  have hi64 (m : GroupMessage) (hm : m ∈ s.groupHistory groupId) : IsI64 m.timestamp :=
    hs.group_i64 _ _ (hs.mem_groupHistory.1 hm).1
  have hgroup (m : GroupMessage) (hm : m ∈ s.groupHistory groupId) : m.groupId = groupId :=
    (hs.mem_groupHistory.1 hm).2
  have horder : ∀ m ∈ s.groupHistory groupId, ∀ m' ∈ s.groupHistory groupId, m.key < m'.key ↔ m.stamp < m'.stamp := by
    intro m hm m' hm'
    rw [GroupMessage.key, GroupMessage.key, hgroup m hm, hgroup m' hm']
    exact filedUnder_lt_iff_stamp (hi64 m hm) (hi64 m' hm') fun hneg => absurd (h.timed m hm).1 (not_le.2 hneg)
  have hparsed : ∀ m ∈ s.groupHistory groupId,
      parseGroupKeyTimestamp m.key = some m.timestamp ∧ afterLastColon m.key = some m.id := fun m hm =>
    ⟨parseGroupKeyTimestamp_groupKey (h.ids m hm) (hi64 m hm), afterLastColon_append (h.ids m hm)⟩
  refine
    { order := horder, parsed := hparsed, own := fun limit before m hm => ?_, newest := fun m hm => ?_
      found := fun hnil => ?_, latest := ?_, since := fun t limit ht => ?_, has := h.has_iff hs.toFiled hlog
      cleaned := fun c m hm => ?_ }
  · have hin : m ∈ s.log groupId := by
      have hsub := List.mem_of_mem_take (List.mem_reverse.1 hm)
      exact List.mem_map.2 ((List.mem_map.1 (List.mem_filter.1 hsub).1).imp fun e he => ⟨List.mem_reverse.1 he.1, he.2⟩)
    exact hgroup m (hlog ▸ hin)
  · rw [fetchGroup_one, Option.mem_toList] at hm
    exact hs.last_isLatest hlog horder hm
  · rw [fetchGroup_one, Option.toList_eq_nil_iff, List.getLast?_eq_none_iff] at hnil
    rw [← hlog, hnil]
  · rw [fetchGroup_one, latestGroupTimestamp_eq]
    cases (s.log groupId).getLast? <;> rfl
  · refine since_iff.2 ((hs.range_eq_newerThan_iff hlog ht).2 fun m hm => ?_) limit
    exact notBefore_succ_iff (h.timed m hm).1 (h.timed m hm).2
  · have hstored := (hs.mem_groupHistory.1 hm).1
    exact (removed_iff hstored).trans (mem_oldGroupKeys hstored (hparsed m hm).1)

theorem GroupAgrees.plain {messageId : String} (h : s.GroupAgrees groupId messageId) (hs : s.Kept) :
    s.GroupPlain groupId messageId := by
  have hids : ∀ m ∈ s.groupHistory groupId, ':' ∉ m.id.toList := fun m hm =>
    colon_notMem_of_afterLastColon (h.parsed m hm).2
  have hown : ∀ e ∈ scanPrefix (groupId ++ ":") s.groupMessages, e.2.groupId = groupId := by
    intro e he
    refine h.own (s.log groupId).length none e.2 ?_
    rw [fetchGroup_none, List.take_of_length_le (by rw [List.length_reverse]), List.reverse_reverse]
    exact mem_log_scan he
  have hlog : s.log groupId = s.groupHistory groupId := hs.log_eq hown
  refine ⟨hids, hown, fun m hm => ?_, fun hc m hm hsuffix => ?_⟩
  · refine timed_of_notBefore_iff (hs.group_i64 _ _ (hs.mem_groupHistory.1 hm).1) fun t ht => ?_
    exact (hs.range_eq_newerThan_iff hlog ht).1 (since_iff.1 fun limit => h.since t limit ht) m hm
  · obtain ⟨hstored, hgroup⟩ := hs.mem_groupHistory.1 hm
    have hmem : (m.key, m) ∈ scanPrefix (groupId ++ ":") s.groupMessages :=
      mem_scanPrefix.2 ⟨hstored, hs.group_prefix ((mem_iter _).2 hstored) hgroup⟩
    obtain ⟨m', hm', hid⟩ := h.has.1 (List.any_eq_true.2 ⟨_, hmem, decide_eq_true hsuffix⟩)
    exact hids m' hm' (hid ▸ hc)

theorem Filed.key_direct (h : s.Filed) {m : DirectMessage} (hm : m ∈ s.directHistory a b) :
    m.key = conversationId a b ++ ":" ++ pad20 m.timestamp ++ ":" ++ m.id := by
  rw [DirectMessage.key, directKey, conversationId_of_chat (h.mem_directHistory.1 hm).2]

theorem DirectPlain.agrees (h : s.DirectPlain a b) (hs : s.Kept) : s.DirectAgrees a b := by
  have hi64 (m : DirectMessage) (hm : m ∈ s.directHistory a b) : IsI64 m.timestamp :=
    hs.direct_i64 _ _ (hs.mem_directHistory.1 hm).1
  have hparsed : ∀ m ∈ s.directHistory a b,
      parseDirectKey m.key = some (conversationId a b, m.timestamp) ∧ afterLastColon m.key = some m.id := by
    intro m hm
    refine ⟨?_, afterLastColon_append (h.ids m hm)⟩
    rw [← conversationId_of_chat (hs.mem_directHistory.1 hm).2]
    exact parseDirectKey_directKey (h.ids m hm) (hi64 m hm)
  refine ⟨fun m hm m' hm' => ?_, hparsed, fun c m hm => ?_⟩
  · rw [hs.key_direct hm, hs.key_direct hm']
    exact filedUnder_lt_iff_stamp (hi64 m hm) (hi64 m' hm') (h.timed m hm m' hm')
  · have hstored := (hs.mem_directHistory.1 hm).1
    exact (removed_iff hstored).trans (mem_oldDirectKeys hstored (hparsed m hm).1)

theorem DirectAgrees.plain (h : s.DirectAgrees a b) (hs : s.Kept) : s.DirectPlain a b := by
  have hi64 (m : DirectMessage) (hm : m ∈ s.directHistory a b) : IsI64 m.timestamp :=
    hs.direct_i64 _ _ (hs.mem_directHistory.1 hm).1
  refine ⟨fun m hm => colon_notMem_of_afterLastColon (h.parsed m hm).2, fun m hm m' hm' hneg hneg' => ?_⟩
  have horder := h.order m hm m' hm'
  rw [hs.key_direct hm, hs.key_direct hm'] at horder
  exact eq_of_filedUnder_lt_iff (hi64 m hm) (hi64 m' hm') hneg hneg' horder

/-- After every run of storage operations, for every group, id that is asked for and conversation: the keys are in the
order of time and give back what they were made from, and their readers agree, if and only if they are plain. -/
theorem keys_agree_iff (ops : List StorageOp) (h : ∀ op ∈ ops, op.Typed) (groupId messageId : String) (a b : Did) :
    (ops.foldl perform .empty).GroupAgrees groupId messageId ∧ (ops.foldl perform .empty).DirectAgrees a b ↔
      (ops.foldl perform .empty).GroupPlain groupId messageId ∧ (ops.foldl perform .empty).DirectPlain a b :=
  ⟨fun ha => ⟨ha.1.plain (kept_run h), ha.2.plain (kept_run h)⟩,
    fun hp => ⟨hp.1.agrees (kept_run h), hp.2.agrees (kept_run h)⟩⟩

/-- So they are and they do in every run that stores nothing but plain messages. -/
theorem agrees_of_plain {ops : List StorageOp} (h : ∀ op ∈ ops, op.Typed) (hp : ∀ op ∈ ops, op.Plain)
    {messageId : String} (hg : ':' ∉ groupId.toList) (hid : ':' ∉ messageId.toList) :
    (ops.foldl perform .empty).GroupAgrees groupId messageId ∧ (ops.foldl perform .empty).DirectAgrees a b := by
  have hs := kept_run h
  have hgroup {k : String} {m : GroupMessage} (hm : (ops.foldl perform .empty).groupMessages[k]? = some m) :
      ':' ∉ m.id.toList ∧ ':' ∉ m.groupId.toList ∧ 0 ≤ m.timestamp ∧ m.timestamp < 2 ^ 63 - 1 := by
    obtain ⟨f, hop, -⟩ := stored_group hm
    exact hp _ hop
  have hdirect (m : DirectMessage) (hm : m ∈ (ops.foldl perform .empty).directHistory a b) :
      ':' ∉ m.id.toList ∧ 0 ≤ m.timestamp := by
    obtain ⟨f, hop, -⟩ := stored_direct (hs.mem_directHistory.1 hm).1
    exact hp _ hop
  have hhistory (m : GroupMessage) (hm : m ∈ (ops.foldl perform .empty).groupHistory groupId) :=
    hgroup (hs.mem_groupHistory.1 hm).1
  constructor
  · refine GroupPlain.agrees ⟨fun m hm => (hhistory m hm).1, fun e he => ?_, fun m hm => (hhistory m hm).2.2,
      fun hc => absurd hc hid⟩ hs
    obtain ⟨hstored, rest, hrest⟩ := mem_scanPrefix.1 he
    rw [← hs.group e.1 e.2 hstored, GroupMessage.key, groupKey] at hrest
    simp only [String.toList_append, List.append_assoc] at hrest
    exact (String.toList_inj.1 (append_cons_inj hg (hgroup hstored).2.1 hrest).1).symm
  · refine DirectPlain.agrees ⟨fun m hm => (hdirect m hm).1, fun m hm m' _ hneg _ => ?_⟩ hs
    exact absurd (hdirect m hm).2 (not_le.2 hneg)

end LocalMessageStorage
namespace KeyOrder

open LocalMessageStorage

def message (groupId id : String) (ts : ℤ) : GroupMessage :=
  { id := id, senderDid := "did:a", groupId := groupId, timestamp := ts, type := 0, replyTo := none
    mlsCiphertext := [] }

/-- A store that has received some messages. -/
def received (ms : List GroupMessage) : LocalMessageStorage :=
  (ms.map (StorageOp.storeGroup noFaults)).foldl perform .empty

/-- An id with a colon passes for another, and its message never grows old; a message of `g:h` is the newest of `g`;
and of two that were sent before 1970 the earlier one is. -/
theorem keys_mislead :
    (¬ (received [message "g" "a:b" 1]).GroupAgrees "g" "b" ∧
      (received [message "g" "a:b" 1]).hasGroupMessage "g" "b" = true ∧
      (received [message "g" "a:b" 1]).oldGroupKeys 2 = []) ∧
    (received [message "g" "x" 1, message "g:h" "y" 0]).fetchGroup "g" 1 none = [message "g:h" "y" 0] ∧
    (received [message "g" "x" (-1), message "g" "y" (-2)]).latestGroupTimestamp "g" = some (-2) := by
  have hother : (received [message "g" "a:b" 1]).hasGroupMessage "g" "b" = true ∧
      ((received [message "g" "a:b" 1]).groupHistory "g").map (·.id) = ["a:b"] := by decide +kernel
  refine ⟨⟨fun h => ?_, hother.1, by decide +kernel⟩, by decide +kernel, by decide +kernel⟩
  obtain ⟨m, hm, hid⟩ := h.has.1 hother.1
  have hmem : m.id ∈ ["a:b"] := hother.2 ▸ List.mem_map_of_mem hm
  rw [hid] at hmem
  exact absurd hmem (by decide)

/-- One message of a group, and nothing of a conversation. -/
theorem keys_agree_one : (received [message "g" "x" 1]).GroupAgrees "g" "x" ∧
    (received [message "g" "x" 1]).DirectAgrees "did:a" "did:b" := by
  have hgroup : (received [message "g" "x" 1]).groupHistory "g" = [message "g" "x" 1] ∧
      (scanPrefix ("g" ++ ":") (received [message "g" "x" 1]).groupMessages).map (·.2) = [message "g" "x" 1] := by
    decide +kernel
  have hdirect : (received [message "g" "x" 1]).directHistory "did:a" "did:b" = [] := by decide +kernel
  refine (keys_agree_iff [.storeGroup noFaults (message "g" "x" 1)] (fun op hop => ?_) "g" "x" "did:a" "did:b").2
    ⟨⟨fun m hm => ?_, fun e he => ?_, fun m hm => ?_, fun hc => absurd hc (by decide)⟩, fun m hm => ?_, fun m hm => ?_⟩
  · rw [List.mem_singleton.1 hop]
    exact (by decide : IsI64 1)
  · rw [List.mem_singleton.1 (hgroup.1 ▸ hm : m ∈ [message "g" "x" 1])]
    decide
  · rw [List.mem_singleton.1 (hgroup.2 ▸ List.mem_map_of_mem he : e.2 ∈ [message "g" "x" 1])]
    rfl
  · rw [List.mem_singleton.1 (hgroup.1 ▸ hm : m ∈ [message "g" "x" 1])]
    decide
  · exact absurd (hdirect ▸ hm : m ∈ []) List.not_mem_nil
  · exact absurd (hdirect ▸ hm : m ∈ []) List.not_mem_nil

end KeyOrder
end Variance
