import Variance.Lib.Arrivals
import Variance.Sanity.Padded
import Variance.Sanity.Since
import Variance.Spec.Receipts

/-! What is stored once receipts have come in, and what the queries read from that. -/

namespace Variance

open Arrivals

/-! Keys -/

/-- Before the last colon stands the reader, after it the time. -/
theorem readerAndTime_inj {a b : String} {s t : ℤ} : a ++ ":" ++ pad20 s = b ++ ":" ++ pad20 t ↔ a = b ∧ s = t := by
  constructor
  · intro h
    have hsplit : some (a, pad20 s) = some (b, pad20 t) := by
      rw [← Text.rsplitOnce_append (colon_notMem_pad20 s), ← Text.rsplitOnce_append (colon_notMem_pad20 t)]
      exact congrArg _ h
    obtain ⟨hab, hst⟩ := Prod.mk.inj (Option.some.inj hsplit)
    exact ⟨hab, pad20_inj.1 hst⟩
  · rintro ⟨rfl, rfl⟩
    rfl

theorem receiptKey_inj {a b : ReadReceipt} (h : a.messageId = b.messageId) :
    receiptKey a = receiptKey b ↔ a.readerDid = b.readerDid ∧ a.timestamp = b.timestamp := by
  unfold receiptKey
  rw [readerAndTime_inj, h, Text.append_right_inj]

theorem groupReceiptKey_inj {a b : GroupReadReceipt} (hg : a.groupId = b.groupId) (hm : a.messageId = b.messageId) :
    LocalMessageStorage.groupReceiptKey a = LocalMessageStorage.groupReceiptKey b ↔
      a.readerDid = b.readerDid ∧ a.timestamp = b.timestamp := by
  unfold LocalMessageStorage.groupReceiptKey
  rw [readerAndTime_inj, hg, hm, Text.append_right_inj]

theorem hasPrefix_receiptKey (r : ReadReceipt) : Text.HasPrefix (r.messageId ++ ":") (receiptKey r) :=
  ((Text.hasPrefix_append _ _).append _).append _

theorem hasPrefix_groupReceiptKey (r : GroupReadReceipt) :
    Text.HasPrefix (r.groupId ++ ":" ++ r.messageId ++ ":") (LocalMessageStorage.groupReceiptKey r) :=
  ((Text.hasPrefix_append _ _).append _).append _

/-! A tree that arrivals are inserted into -/

theorem get_arrived {α : Type} {key : α → String} {as : List α} {t : SledTree α} {k : String} {a : α} :
    (as.foldl (fun t a => t.insert (key a) a) t)[k]? = some a ↔
      (Standing key as a ∧ key a = k) ∨ (t[k]? = some a ∧ ∀ b ∈ as, key b ≠ k) := by
  induction as using List.reverseRecOn with
  | nil => simp [not_standing_nil]
  | append_singleton as c ih =>
    rw [List.foldl_append, List.foldl_cons, List.foldl_nil, get_insert, standing_concat]
    by_cases hc : key c = k
    · rw [if_pos hc, Option.some.injEq]
      constructor
      · rintro rfl
        exact Or.inl ⟨Or.inl rfl, hc⟩
      · rintro (⟨rfl | ⟨-, hne⟩, hk⟩ | ⟨-, hne⟩)
        · rfl
        · exact (hne (hc.trans hk.symm)).elim
        · exact (hne c (by simp) hc).elim
    · rw [if_neg hc, ih]
      constructor
      · rintro (⟨ha, hk⟩ | ⟨ha, hne⟩)
        · exact Or.inl ⟨Or.inr ⟨ha, by rwa [hk]⟩, hk⟩
        · refine Or.inr ⟨ha, fun b hb => ?_⟩
          rcases List.mem_append.1 hb with hb | hb
          · exact hne b hb
          · rwa [List.mem_singleton.1 hb]
      · rintro (⟨rfl | ⟨ha, -⟩, hk⟩ | ⟨ha, hne⟩)
        · exact (hc hk).elim
        · exact Or.inl ⟨ha, hk⟩
        · exact Or.inr ⟨ha, fun b hb => hne b (by simp [hb])⟩

theorem receive_receipts (s : ReceiptStorage) (as : List ReadReceipt) :
    (s.receive as).receipts = as.foldl (fun t r => t.insert (receiptKey r) r) s.receipts := by
  unfold ReceiptStorage.receive
  induction as generalizing s with
  | nil => rfl
  | cons a as ih =>
    rw [List.foldl_cons, ih]
    rfl

theorem receive_groupReceipts {M : OpenMls} (n : Node M) (as : List GroupReadReceipt) :
    (n.receive as).storage.groupReceipts =
      as.foldl (fun t r => t.insert (LocalMessageStorage.groupReceiptKey r) r) n.storage.groupReceipts := by
  show (as.foldl (fun (s : LocalMessageStorage) r => (s.storeGroupReceipt noFaults r).2) n.storage).groupReceipts = _
  generalize n.storage = s
  induction as generalizing s with
  | nil => rfl
  | cons a as ih =>
    rw [List.foldl_cons, ih]
    rfl

/-- Under a prefix that nothing was under, a scan finds the arrivals that stand there. -/
theorem mem_scan_arrived {α : Type} {key : α → String} {as : List α} {t : SledTree α} {pre : String}
    (ht : ∀ (k : String) a, t[k]? = some a → ¬ Text.HasPrefix pre k) {a : α} :
    a ∈ (scanPrefix pre (as.foldl (fun t a => t.insert (key a) a) t)).map (·.2) ↔
      Standing key as a ∧ Text.HasPrefix pre (key a) := by
  rw [List.mem_map]
  constructor
  · rintro ⟨⟨k, b⟩, he, rfl⟩
    obtain ⟨hget, hpre⟩ := mem_scanPrefix.1 he
    rcases get_arrived.1 hget with ⟨hb, hkey⟩ | ⟨hb, -⟩
    · exact ⟨hb, by rwa [hkey]⟩
    · exact (ht _ _ hb hpre).elim
  · rintro ⟨ha, hpre⟩
    exact ⟨(key a, a), mem_scanPrefix.2 ⟨get_arrived.2 (Or.inl ⟨ha, rfl⟩), hpre⟩, rfl⟩

/-! The status queries -/

theorem latest_concat {α : Type} (ts : α → ℤ) (l : List α) (a : α) : latest ts (l ++ [a]) =
    match latest ts l with
    | some c => if ts c < ts a then some a else some c
    | none => some a := by
  unfold latest
  rw [List.foldl_append, List.foldl_cons, List.foldl_nil]
  cases l.foldl _ none <;> rfl

theorem latest_eq_none {α : Type} {ts : α → ℤ} {l : List α} : latest ts l = none ↔ l = [] := by
  cases l using List.reverseRecOn with
  | nil => simp [latest]
  | append_singleton l a =>
    rw [latest_concat]
    cases latest ts l with
    | none => simp
    | some c => by_cases h : ts c < ts a <;> simp [h]

/-- In the order of their keys: every other one is earlier, or as late and under a greater key. -/
theorem latest_first {α : Type} {ts : α → ℤ} {l : List (String × α)} (hl : l.Pairwise fun a b => a.1 < b.1) {r : α}
    (h : latest ts (l.map (·.2)) = some r) :
    ∃ k, (k, r) ∈ l ∧ ∀ e ∈ l, e = (k, r) ∨ ts e.2 < ts r ∨ (ts e.2 = ts r ∧ k < e.1) := by
  induction l using List.reverseRecOn generalizing r with
  | nil => simp [latest] at h
  | append_singleton l a ih =>
    obtain ⟨hl, -, hla⟩ := List.pairwise_append.1 hl
    rw [List.map_append, List.map_cons, List.map_nil, latest_concat] at h
    cases hc : latest ts (l.map (·.2)) with
    | none =>
      rw [hc] at h
      obtain rfl : l = [] := List.map_eq_nil_iff.1 (latest_eq_none.1 hc)
      obtain rfl : a.2 = r := by simpa using h
      exact ⟨a.1, by simp, by simp⟩
    | some c =>
      rw [hc] at h
      obtain ⟨k, hk, hall⟩ := ih hl hc
      dsimp only at h
      split_ifs at h with hlt
      · obtain rfl := Option.some.inj h
        refine ⟨a.1, by simp, fun e he => ?_⟩
        rcases List.mem_append.1 he with he | he
        · rcases hall e he with rfl | hlt' | ⟨heq, -⟩
          · exact Or.inr (Or.inl hlt)
          · exact Or.inr (Or.inl (hlt'.trans hlt))
          · exact Or.inr (Or.inl (heq ▸ hlt))
        · exact Or.inl (List.mem_singleton.1 he)
      · obtain rfl := Option.some.inj h
        refine ⟨k, by simp [hk], fun e he => ?_⟩
        rcases List.mem_append.1 he with he | he
        · exact hall e he
        · obtain rfl := List.mem_singleton.1 he
          have hkey : k < e.1 := hla (k, c) hk e (by simp)
          rcases lt_or_eq_of_le (not_lt.1 hlt) with hlt' | heq
          · exact Or.inr (Or.inl hlt')
          · exact Or.inr (Or.inr ⟨heq, hkey⟩)

section Status
variable {s : ReceiptStorage} {as : List ReadReceipt} {messageId : String} {reader : Did} {r : ReadReceipt}

/-- No receipt for the message yet. -/
def ReceiptStorage.Without (s : ReceiptStorage) (messageId : String) : Prop :=
  ∀ (k : String) r, s.receipts[k]? = some r → ¬ Text.HasPrefix (messageId ++ ":") k

theorem mem_fetchReceipts (hs : s.Without messageId) (has : ∀ r ∈ as, r.messageId = messageId) :
    r ∈ (s.receive as).fetchReceipts messageId ↔ Standing receiptKey as r := by
  unfold ReceiptStorage.fetchReceipts
  rw [receive_receipts, mem_scan_arrived hs, and_iff_left_iff_imp]
  intro hr
  rw [← has r hr.mem]
  exact hasPrefix_receiptKey r

theorem without_reader (hs : s.Without messageId) {k : String} (hk : s.receipts[k]? = some r) :
    ¬ Text.HasPrefix (messageId ++ ":" ++ reader ++ ":") k := by
  intro hpre
  exact hs k r hk (((Text.hasPrefix_append _ _).append _).trans hpre)

theorem fetchReceiptStatus_none (hs : s.Without messageId) :
    (s.receive as).fetchReceiptStatus messageId reader = none ↔
      ∀ r, Standing receiptKey as r → ¬ r.SeenFor messageId reader := by
  unfold ReceiptStorage.fetchReceiptStatus
  rw [latest_eq_none, List.eq_nil_iff_forall_not_mem, receive_receipts]
  refine forall_congr' fun r => ?_
  rw [mem_scan_arrived fun k r hk => without_reader hs hk, not_and]
  rfl

/-- The receipt a status query returns: of those that stand in its range, each other is earlier, or as late and after
it in the order of the keys. -/
theorem fetchReceiptStatus_some (hs : s.Without messageId)
    (h : (s.receive as).fetchReceiptStatus messageId reader = some r) :
    Standing receiptKey as r ∧ r.SeenFor messageId reader ∧ ∀ b, Standing receiptKey as b →
      b.SeenFor messageId reader →
        b = r ∨ b.timestamp < r.timestamp ∨ (b.timestamp = r.timestamp ∧ receiptKey r < receiptKey b) := by
  unfold ReceiptStorage.fetchReceiptStatus at h
  obtain ⟨k, hk, hall⟩ := latest_first ((keys_sorted _).filter _) h
  rw [receive_receipts] at hk hall
  -- what lies in the range stands, and lies under its own key
  have hstand (e : String × ReadReceipt)
      (he : e ∈ scanPrefix (messageId ++ ":" ++ reader ++ ":")
        (as.foldl (fun t r => t.insert (receiptKey r) r) s.receipts)) :
      Standing receiptKey as e.2 ∧ receiptKey e.2 = e.1 := by
    obtain ⟨hget, hpre⟩ := mem_scanPrefix.1 he
    rcases get_arrived.1 hget with h | ⟨h, -⟩
    · exact h
    · exact (without_reader hs h hpre).elim
  obtain ⟨hr, hkey⟩ := hstand (k, r) hk
  obtain rfl : receiptKey r = k := hkey
  refine ⟨hr, (mem_scanPrefix.1 hk).2, fun b hb hseen => ?_⟩
  have hb' := hall (receiptKey b, b) (mem_scanPrefix.2 ⟨get_arrived.2 (Or.inl ⟨hb, rfl⟩), hseen⟩)
  exact hb'.imp_left fun heq => (Prod.mk.inj heq).2

end Status

section Group
variable {did : Did} {c : ℤ}

theorem le_maxStatus {l : List GroupReadReceipt} :
    c ≤ maxStatus l did ↔ c ≤ 0 ∨ ∃ r ∈ l, r.readerDid = did ∧ c ≤ r.status := by
  unfold maxStatus
  induction l with
  | nil => simp
  | cons r l ih =>
    by_cases hr : r.readerDid = did
    · rw [List.filter_cons_of_pos (by simp [hr]), List.map_cons, List.foldr_cons, le_max_iff, ih]
      simp only [List.mem_cons, exists_eq_or_imp, hr, true_and]
      tauto
    · rw [List.filter_cons_of_neg (by simp [hr]), ih]
      simp [hr]

theorem le_statusMap {l : List GroupReadReceipt} :
    c ≤ ((statusMap l)[did]?).getD 0 ↔ c ≤ 0 ∨ ∃ r ∈ l, r.readerDid = did ∧ c ≤ r.status := by
  induction l using List.reverseRecOn with
  | nil => simp [statusMap]
  | append_singleton l r ih =>
    have hlast : statusMap (l ++ [r]) = (statusMap l).insert r.readerDid
        (if ((statusMap l)[r.readerDid]?).getD 0 < r.status then r.status
          else ((statusMap l)[r.readerDid]?).getD 0) := by
      unfold statusMap
      rw [List.foldl_append, List.foldl_cons, List.foldl_nil]
    rw [hlast, get_insert]
    simp only [List.mem_append, List.mem_singleton, or_and_right, exists_or, exists_eq_left]
    by_cases hr : r.readerDid = did
    · subst hr
      rw [if_pos rfl, Option.getD_some, ← or_assoc, ← ih]
      split_ifs with hlt
      · simp only [true_and]
        exact ⟨Or.inr, fun h => h.elim (fun h => h.trans hlt.le) id⟩
      · simp only [true_and]
        exact ⟨Or.inl, fun h => h.elim id fun h => h.trans (not_lt.1 hlt)⟩
    · rw [if_neg hr, ih]
      simp [hr]

theorem statusMap_eq (l : List GroupReadReceipt) : ((statusMap l)[did]?).getD 0 = maxStatus l did :=
  eq_of_forall_le_iff fun _ => le_statusMap.trans le_maxStatus.symm

theorem le_lowest {members : List Did} {f : Did → ℤ} (hc : 0 < c) :
    c ≤ (members.map f).min?.getD 0 ↔ members ≠ [] ∧ ∀ did ∈ members, c ≤ f did := by
  cases h : (members.map f).min? with
  | none =>
    have hnil : members = [] := by simpa using h
    simp [hnil, hc]
  | some x =>
    have hne : members ≠ [] := by
      rintro rfl
      simp at h
    rw [Option.getD_some, List.le_min?_iff h]
    simp [hne]

theorem statusStr_congr {a b : ℤ} (h1 : 1 ≤ a ↔ 1 ≤ b) (h2 : 2 ≤ a ↔ 2 ≤ b) : statusStr a = statusStr b := by
  unfold statusStr receiptRead receiptDelivered
  simp only [h1, h2]

theorem statusStr_eq_read {a : ℤ} : statusStr a = "read" ↔ 2 ≤ a := by
  unfold statusStr receiptRead receiptDelivered
  split_ifs <;> simp_all

theorem groupAggregateStatus_eq (s : LocalMessageStorage) (groupId messageId : String) (members : List Did) :
    s.groupAggregateStatus groupId messageId members =
      statusStr ((members.map (maxStatus (s.fetchGroupReceipts groupId messageId))).min?.getD 0) := by
  unfold LocalMessageStorage.groupAggregateStatus
  split_ifs with h
  · rw [h]
    rfl
  · simp only [statusMap_eq]

variable {M : OpenMls} {n : Node M} {groupId messageId : String} {as : List GroupReadReceipt} {r : GroupReadReceipt}

/-- No receipt for the group message yet. -/
def Node.Without (n : Node M) (groupId messageId : String) : Prop :=
  ∀ (k : String) r, n.storage.groupReceipts[k]? = some r → ¬ Text.HasPrefix (groupId ++ ":" ++ messageId ++ ":") k

theorem mem_fetchGroupReceipts (hn : n.Without groupId messageId) (has : ∀ r ∈ as, r.IsFor groupId messageId) :
    r ∈ (n.receive as).storage.fetchGroupReceipts groupId messageId ↔
      Standing LocalMessageStorage.groupReceiptKey as r := by
  unfold LocalMessageStorage.fetchGroupReceipts
  rw [receive_groupReceipts, mem_scan_arrived hn, and_iff_left_iff_imp]
  intro hr
  obtain ⟨hg, hm, -⟩ := has r hr.mem
  rw [← hg, ← hm]
  exact hasPrefix_groupReceiptKey r

end Group

end Variance
