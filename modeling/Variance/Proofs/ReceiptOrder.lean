import Variance.Sanity.IdealMls
import Variance.Sanity.Receipts

/-! Statuses that do not depend on the order receipts come in: for a direct message just where no delivered receipt
takes the place of a read one, for a reader where the read ones prevail, for a group where no clash can keep all its
members from having read. -/

namespace Variance

open Arrivals

/-! Direct messages -/

/-- Read as soon as one receipt says so. -/
def topStatus (as : List ReadReceipt) : String :=
  if ∃ r ∈ as, r.status = receiptRead then "read" else if as = [] then "sent" else "delivered"

theorem topStatus_congr {as bs : List ReadReceipt} (h : ∀ r, r ∈ as ↔ r ∈ bs) : topStatus as = topStatus bs := by
  have hread : (∃ r ∈ as, r.status = receiptRead) ↔ ∃ r ∈ bs, r.status = receiptRead :=
    exists_congr fun r => and_congr_left fun _ => h r
  have hnil : as = [] ↔ bs = [] := by
    rw [List.eq_nil_iff_forall_not_mem, List.eq_nil_iff_forall_not_mem]
    exact forall_congr' fun r => not_congr (h r)
  unfold topStatus
  simp only [hread, hnil]

theorem topStatus_eq_read {as : List ReadReceipt} : topStatus as = "read" ↔ ∃ r ∈ as, r.status = receiptRead := by
  unfold topStatus
  split_ifs with h h' <;> simp [h]

theorem topStatus_stays {as bs : List ReadReceipt} (h : topStatus as = "read") : topStatus (as ++ bs) = "read" := by
  obtain ⟨r, hr, hread⟩ := topStatus_eq_read.1 h
  exact topStatus_eq_read.2 ⟨r, List.mem_append_left _ hr, hread⟩

section Direct
variable {me : Did} {store : LocalMessageStorage} {s : ReceiptStorage} {m : DirectMessage} {reader : Did}
  {pool as : List ReadReceipt}

/-- Otherwise the list does not look at receipts. -/
theorem directStatus_hidden (h : ¬ StatusShown me store m) (t t' : ReceiptStorage) :
    directStatus me store t m = directStatus me store t' m ∧ directStatus me store t m ≠ some "read" := by
  unfold StatusShown at h
  unfold directStatus
  split_ifs with hm hp
  · simp
  · exact (h ⟨hm, by simpa using hp⟩).elim
  · simp

theorem directStatus_shown (h : StatusShown me store m) (t : ReceiptStorage) : directStatus me store t m =
    some (if ∃ r ∈ t.fetchReceipts m.id, r.status = receiptRead then "read"
      else if ∃ r ∈ t.fetchReceipts m.id, r.status = receiptDelivered then "delivered" else "sent") := by
  unfold directStatus
  rw [if_pos h.1, if_neg (by simp [h.2])]
  simp only [List.any_eq_true, decide_eq_true_eq]
  split_ifs <;> rfl

theorem directStatus_read_iff (h : StatusShown me store m) (hs : s.Without m.id) (has : ∀ r ∈ as, r.IsFor m.id) :
    directStatus me store (s.receive as) m = some "read" ↔ ∃ r, Standing receiptKey as r ∧ r.status = receiptRead := by
  have hmem (r : ReadReceipt) : r ∈ (s.receive as).fetchReceipts m.id ↔ Standing receiptKey as r :=
    mem_fetchReceipts hs fun r hr => (has r hr).1
  classical
  rw [directStatus_shown h]
  simp only [hmem]
  split_ifs with h1 h2 <;> simp [h1]

/-- Where none clash, the list says what came. -/
theorem directStatus_top (h : StatusShown me store m) (hs : s.Without m.id) (hpool : ∀ r ∈ pool, r.IsFor m.id)
    (hun : Unclashing pool) (has : as ⊆ pool) : directStatus me store (s.receive as) m = some (topStatus as) := by
  have hread : (∃ r, Standing receiptKey as r ∧ r.status = receiptRead) ↔ ∃ r ∈ as, r.status = receiptRead := by
    constructor
    · rintro ⟨r, hr, hst⟩
      exact ⟨r, hr.mem, hst⟩
    · rintro ⟨r, hr, hst⟩
      have hkeys (a) (ha : a ∈ pool) (b) (hb : b ∈ pool) (hat : a.status = receiptRead)
          (hbt : ¬ b.status = receiptRead) : receiptKey a ≠ receiptKey b := by
        intro hkey
        have hdel : b.status = receiptDelivered := ((hpool b hb).2).resolve_right hbt
        exact hun a ha b hb hat hdel ((receiptKey_inj ((hpool a ha).1.trans (hpool b hb).1.symm)).1 hkey)
      obtain ⟨b, hb, -, htop⟩ := top_standing hkeys has hr hst
      exact ⟨b, hb, htop⟩
  have hnil : (∃ r, Standing receiptKey as r ∧ r.status = receiptDelivered) ∨
      (∃ r, Standing receiptKey as r ∧ r.status = receiptRead) ↔ as ≠ [] := by
    rw [← exists_or]
    constructor
    · rintro ⟨r, ⟨hr, -⟩ | ⟨hr, -⟩⟩ rfl <;> exact not_standing_nil hr
    · intro hne
      obtain ⟨a, ha⟩ := List.exists_mem_of_ne_nil as hne
      obtain ⟨b, hb, -⟩ := @exists_standing _ _ receiptKey _ _ ha
      rcases (hpool b (has hb.mem)).2 with hst | hst
      · exact ⟨b, Or.inl ⟨hb, hst⟩⟩
      · exact ⟨b, Or.inr ⟨hb, hst⟩⟩
  have hmem (r : ReadReceipt) : r ∈ (s.receive as).fetchReceipts m.id ↔ Standing receiptKey as r :=
    mem_fetchReceipts hs fun r hr => (hpool r (has hr)).1
  classical
  rw [directStatus_shown h]
  simp only [hmem]
  unfold topStatus
  by_cases h1 : ∃ r ∈ as, r.status = receiptRead
  · rw [if_pos (hread.2 h1), if_pos h1]
  · rw [if_neg (fun h => h1 (hread.1 h)), if_neg h1]
    by_cases h2 : as = []
    · rw [if_pos h2, if_neg fun h => hnil.1 (Or.inl h) h2]
    · rw [if_neg h2, if_pos ((hnil.2 h2).resolve_right fun h => h1 (hread.1 h))]

/-- A clash takes a read status back. -/
theorem unclashing_of_stays (h : StatusShown me store m) (hs : s.Without m.id) (hpool : ∀ r ∈ pool, r.IsFor m.id)
    (hd : DirectSettled me store s m reader pool) : Unclashing pool := by
  intro a ha b hb hread hdel ⟨hreader, htime⟩
  have hkey : receiptKey a = receiptKey b :=
    (receiptKey_inj ((hpool a ha).1.trans (hpool b hb).1.symm)).2 ⟨hreader, htime⟩
  have hsub : [a] ++ [b] ⊆ pool := List.cons_subset.2 ⟨ha, List.cons_subset.2 ⟨hb, List.nil_subset _⟩⟩
  have hfor (r : ReadReceipt) (hr : r ∈ [a] ++ [b]) : r.IsFor m.id := hpool r (hsub hr)
  have hfirst : directStatus me store (s.receive [a]) m = some "read" :=
    (directStatus_read_iff h hs fun r hr => hfor r (List.mem_append_left _ hr)).2
      ⟨a, standing_singleton.2 rfl, hread⟩
  obtain ⟨r, hr, hrread⟩ := (directStatus_read_iff h hs hfor).1 ((hd.stays [a] [b] hsub).1 hfirst)
  rcases standing_concat.1 hr with rfl | ⟨hr, hne⟩
  · rw [hdel] at hrread
    exact absurd hrread (by decide)
  · rw [standing_singleton.1 hr] at hne
    exact hne hkey.symm

theorem readerStatus_read_iff {t : ReceiptStorage} {id : String} : t.readerStatus id reader = "read" ↔
    ∃ r, t.fetchReceiptStatus id reader = some r ∧ r.status = receiptRead := by
  unfold ReceiptStorage.readerStatus
  cases t.fetchReceiptStatus id reader with
  | none => simp
  | some r =>
    simp only [Option.some.injEq, exists_eq_left']
    unfold receiptStatusToString
    split_ifs with h1 h2
    · simp [h1, receiptDelivered, receiptRead]
    · simp [h2]
    · simp [h2]

/-- Where the read ones prevail, a reader's status says what came of it. -/
theorem readerStatus_top (hs : s.Without m.id) (hpool : ∀ r ∈ pool, r.IsFor m.id)
    (hprev : ReadPrevails m.id reader pool) (has : as ⊆ pool) :
    (s.receive as).readerStatus m.id reader = topStatus (as.filter fun r => r.SeenFor m.id reader) := by
  unfold ReceiptStorage.readerStatus
  have hseenKey {a b : ReadReceipt} (hkey : receiptKey b = receiptKey a) (ha : a.SeenFor m.id reader) :
      b.SeenFor m.id reader := by
    unfold ReadReceipt.SeenFor
    rw [hkey]
    exact ha
  cases hr : (s.receive as).fetchReceiptStatus m.id reader with
  | none =>
    have hnone := (fetchReceiptStatus_none hs).1 hr
    have hnil : as.filter (fun r => r.SeenFor m.id reader) = [] := by
      refine List.filter_eq_nil_iff.2 fun a ha hseen => ?_
      obtain ⟨b, hb, hkey⟩ := @exists_standing _ _ receiptKey _ _ ha
      exact hnone b hb (hseenKey hkey (of_decide_eq_true hseen))
    rw [hnil]
    rfl
  | some r =>
    obtain ⟨hstand, hseen, hfirst⟩ := fetchReceiptStatus_some hs hr
    have hmem : r ∈ as.filter fun r => r.SeenFor m.id reader :=
      List.mem_filter.2 ⟨hstand.mem, decide_eq_true hseen⟩
    rcases (hpool r (has hstand.mem)).2 with hdel | hread
    · -- were there a read one, it or what took its place would prevail
      have hno : ¬ ∃ a ∈ as.filter (fun r => r.SeenFor m.id reader), a.status = receiptRead := by
        rintro ⟨a, ha, haread⟩
        obtain ⟨haas, haseen⟩ := List.mem_filter.1 ha
        obtain ⟨b, hb, hkey⟩ := @exists_standing _ _ receiptKey _ _ haas
        have hprev' := hprev a (has haas) r (has hstand.mem) haread hdel (of_decide_eq_true haseen) hseen
        have htime : b.timestamp = a.timestamp :=
          ((receiptKey_inj ((hpool b (has hb.mem)).1.trans (hpool a (has haas)).1.symm)).1 hkey).2
        rcases hfirst b hb (hseenKey hkey (of_decide_eq_true haseen)) with rfl | hlt | ⟨heq, hlt⟩
        · rcases hprev' with hlt | ⟨-, hlt⟩
          · omega
          · rw [hkey] at hlt
            exact lt_irrefl _ hlt
        · rcases hprev' with hlt' | ⟨heq', -⟩ <;> omega
        · rcases hprev' with hlt' | ⟨-, hlt'⟩
          · omega
          · rw [hkey] at hlt
            exact lt_asymm hlt hlt'
      unfold topStatus
      rw [if_neg hno, if_neg (List.ne_nil_of_mem hmem)]
      dsimp only
      rw [hdel]
      rfl
    · rw [topStatus_eq_read.2 ⟨r, hmem, hread⟩]
      dsimp only
      rw [hread]
      rfl

/-- Where they do not, a later delivered receipt takes a read status back. -/
theorem prevails_of_stays (hs : s.Without m.id) (hd : DirectSettled me store s m reader pool) :
    ReadPrevails m.id reader pool := by
  intro a ha b hb hread hdel haseen hbseen
  have hsub : [a] ++ [b] ⊆ pool := List.cons_subset.2 ⟨ha, List.cons_subset.2 ⟨hb, List.nil_subset _⟩⟩
  have hfirst : (s.receive [a]).readerStatus m.id reader = "read" := by
    refine readerStatus_read_iff.2 ?_
    cases hr : (s.receive [a]).fetchReceiptStatus m.id reader with
    | none => exact ((fetchReceiptStatus_none hs).1 hr a (standing_singleton.2 rfl) haseen).elim
    | some r =>
      obtain rfl := standing_singleton.1 (fetchReceiptStatus_some hs hr).1
      exact ⟨r, rfl, hread⟩
  obtain ⟨r, hr, hrread⟩ := readerStatus_read_iff.1 ((hd.stays [a] [b] hsub).2 hfirst)
  obtain ⟨hstand, -, hall⟩ := fetchReceiptStatus_some hs hr
  have hne : b ≠ a := by
    rintro rfl
    rw [hdel] at hread
    exact absurd hread (by decide)
  rcases standing_concat.1 hstand with rfl | ⟨hstand, -⟩
  · rw [hdel] at hrread
    exact absurd hrread (by decide)
  · obtain rfl := standing_singleton.1 hstand
    rcases hall b (standing_concat.2 (Or.inl rfl)) hbseen with rfl | hlt | ⟨heq, hlt⟩
    · exact (hne rfl).elim
    · exact Or.inl hlt
    · exact Or.inr ⟨heq.symm, hlt⟩

/-- What the list and the reader's status have to be told apart by: a receipt the query does not come across. -/
theorem seen_of_agree (h : StatusShown me store m) (hs : s.Without m.id) (hpool : ∀ r ∈ pool, r.IsFor m.id)
    (hd : DirectSettled me store s m reader pool) (hreader : reader = m.recipientDid) {r : ReadReceipt} (hr : r ∈ pool) :
    r.SeenFor m.id reader := by
  by_contra hseen
  have hone (a : ReadReceipt) (ha : a ∈ [r]) : a.IsFor m.id := by
    rw [List.mem_singleton.1 ha]
    exact hpool r hr
  have hagree := hd.agree h hreader [r] (by simpa using hr)
  have hnone : (s.receive [r]).fetchReceiptStatus m.id reader = none := by
    refine (fetchReceiptStatus_none hs).2 fun a ha => ?_
    rwa [standing_singleton.1 ha]
  have hsent : (s.receive [r]).readerStatus m.id reader = "sent" := by
    unfold ReceiptStorage.readerStatus
    rw [hnone]
  rw [hsent, directStatus_shown h] at hagree
  simp only [mem_fetchReceipts hs fun a ha => (hone a ha).1, standing_singleton, exists_eq_left] at hagree
  rcases (hpool r hr).2 with hst | hst <;> simp [hst, receiptDelivered, receiptRead] at hagree

theorem directSettled_iff (hs : s.Without m.id) (hpool : ∀ r ∈ pool, r.IsFor m.id) :
    DirectSettled me store s m reader pool ↔ (StatusShown me store m → Unclashing pool) ∧
      ReadPrevails m.id reader pool ∧
      (StatusShown me store m → reader = m.recipientDid → ∀ r ∈ pool, r.SeenFor m.id reader) := by
  constructor
  · intro hd
    exact ⟨fun h => unclashing_of_stays h hs hpool hd, prevails_of_stays hs hd,
      fun h hreader r hr => seen_of_agree h hs hpool hd hreader hr⟩
  · rintro ⟨hun, hprev, hseen⟩
    have hreader (as) (has : as ⊆ pool) := readerStatus_top hs hpool hprev has
    refine ⟨fun as bs has heq => ?_, fun as bs hsub => ?_, fun h hr as has => ?_⟩
    · have hbs : bs ⊆ pool := fun r hr => has ((heq r).2 hr)
      refine ⟨?_, ?_⟩
      · by_cases h : StatusShown me store m
        · rw [directStatus_top h hs hpool (hun h) has, directStatus_top h hs hpool (hun h) hbs, topStatus_congr heq]
        · exact (directStatus_hidden h _ _).1
      · rw [hreader as has, hreader bs hbs]
        exact topStatus_congr fun r => by simp [List.mem_filter, heq]
    · have has : as ⊆ pool := fun r hr => hsub (List.mem_append_left _ hr)
      refine ⟨fun hread => ?_, fun hread => ?_⟩
      · by_cases h : StatusShown me store m
        · rw [directStatus_top h hs hpool (hun h) has, Option.some.injEq] at hread
          rw [directStatus_top h hs hpool (hun h) hsub, topStatus_stays hread]
        · exact ((directStatus_hidden h _ s).2 hread).elim
      · rw [hreader as has] at hread
        rw [hreader _ hsub, List.filter_append, topStatus_stays hread]
    · have hall : as.filter (fun r => r.SeenFor m.id reader) = as :=
        List.filter_eq_self.2 fun r hmem => decide_eq_true (hseen h hr r (has hmem))
      rw [directStatus_top h hs hpool (hun h) has, hreader as has, hall]

end Direct

/-! Group messages -/

section Group
variable {M : OpenMls} {n : Node M} {groupId : String} {m : GroupMessage} {pool as : List GroupReadReceipt} {did : Did}

theorem groupStatus_own (h : m.senderDid = n.localDid) (as : List GroupReadReceipt) :
    (n.receive as).groupStatus groupId m = some (statusStr (((n.otherMembers groupId).map
      (maxStatus ((n.receive as).storage.fetchGroupReceipts groupId m.id))).min?.getD 0)) := by
  rw [← groupAggregateStatus_eq]
  exact if_pos h

theorem groupStatus_others (h : m.senderDid ≠ n.localDid) (as : List GroupReadReceipt) :
    (n.receive as).groupStatus groupId m = none := if_neg h

theorem le_status {r : GroupReadReceipt} (hr : r.IsFor groupId m.id) : 1 ≤ r.status := by
  rcases hr.2.2 with h | h <;> rw [h] <;> decide

theorem two_le_status {r : GroupReadReceipt} (hr : r.IsFor groupId m.id) : 2 ≤ r.status ↔ r.status = receiptRead := by
  rcases hr.2.2 with h | h <;> rw [h] <;> decide

/-- A status of the reader is kept when what stands in the place of a receipt of it has it too. -/
theorem status_kept {k : ℕ} (hn : n.Without groupId m.id) (hpool : ∀ r ∈ pool, r.IsFor groupId m.id) (has : as ⊆ pool)
    (hkeep : ∀ r ∈ as, ∀ b ∈ as, r.readerDid = did → k ≤ r.status →
      b.readerDid = r.readerDid ∧ b.timestamp = r.timestamp → k ≤ b.status) :
    k ≤ maxStatus ((n.receive as).storage.fetchGroupReceipts groupId m.id) did ↔ k ≤ maxStatus as did := by
  have hmem (r : GroupReadReceipt) : r ∈ (n.receive as).storage.fetchGroupReceipts groupId m.id ↔
      Standing LocalMessageStorage.groupReceiptKey as r := mem_fetchGroupReceipts hn fun r hr => hpool r (has hr)
  rw [le_maxStatus, le_maxStatus]
  refine or_congr_right ⟨?_, ?_⟩
  · rintro ⟨r, hr, hd, hst⟩
    exact ⟨r, ((hmem r).1 hr).mem, hd, hst⟩
  · rintro ⟨r, hr, hd, hst⟩
    obtain ⟨b, hb, hkey⟩ := @exists_standing _ _ LocalMessageStorage.groupReceiptKey _ _ hr
    have hforb := hpool b (has hb.mem)
    have hforr := hpool r (has hr)
    have hclash := (groupReceiptKey_inj (hforb.1.trans hforr.1.symm) (hforb.2.1.trans hforr.2.1.symm)).1 hkey
    exact ⟨b, (hmem b).2 hb, hclash.1.trans hd, hkeep r hr b hb.mem hd hst hclash⟩

/-- A delivered status is never displaced by none. -/
theorem delivered_kept (hn : n.Without groupId m.id) (hpool : ∀ r ∈ pool, r.IsFor groupId m.id) (has : as ⊆ pool) :
    1 ≤ maxStatus ((n.receive as).storage.fetchGroupReceipts groupId m.id) did ↔ 1 ≤ maxStatus as did :=
  status_kept hn hpool has fun _ _ b hb _ _ _ => le_status (hpool b (has hb))

/-- Nor, without a clash, is a read one. -/
theorem read_kept (hn : n.Without groupId m.id) (hpool : ∀ r ∈ pool, r.IsFor groupId m.id) (has : as ⊆ pool)
    (hun : ∀ a ∈ pool, ∀ b ∈ pool, a.readerDid = did → a.status = receiptRead → b.status = receiptDelivered →
      ¬ (a.readerDid = b.readerDid ∧ a.timestamp = b.timestamp)) :
    2 ≤ maxStatus ((n.receive as).storage.fetchGroupReceipts groupId m.id) did ↔ 2 ≤ maxStatus as did := by
  refine status_kept hn hpool has fun r hr b hb hd hst hclash => ?_
  have hforb := hpool b (has hb)
  have hread := (two_le_status (hpool r (has hr))).1 hst
  refine (two_le_status hforb).2 (hforb.2.2.resolve_left fun hdel => ?_)
  exact hun r (has hr) b (has hb) hd hread hdel ⟨hclash.1.symm, hclash.2.symm⟩

/-- Once every member has read, a clash makes one of them look as if it had not. -/
theorem groupUnclashing_of_least (hn : n.Without groupId m.id) (hpool : ∀ r ∈ pool, r.IsFor groupId m.id)
    (h : m.senderDid = n.localDid) (hd : GroupSettled n groupId m pool) :
    GroupUnclashing (n.otherMembers groupId) pool := by
  by_contra hnot
  unfold GroupUnclashing at hnot
  push Not at hnot
  obtain ⟨hall, a, ha, b, hb, hmember, hread, hdel, hreader, htime⟩ := hnot
  -- the receipts of the others, then the read one, then the delivered one in its place
  let others := pool.filter fun r => r.readerDid ≠ a.readerDid
  have hsub : others ++ [a] ++ [b] ⊆ pool := by
    intro r hr
    simp only [List.mem_append, List.mem_singleton] at hr
    rcases hr with (hr | rfl) | rfl
    · exact (List.mem_filter.1 hr).1
    · exact ha
    · exact hb
  have hfor (r : GroupReadReceipt) (hr : r ∈ others ++ [a] ++ [b]) : r.IsFor groupId m.id := hpool r (hsub hr)
  have hne : n.otherMembers groupId ≠ [] := List.ne_nil_of_mem hmember
  have hideal : 2 ≤ ((n.otherMembers groupId).map (maxStatus (others ++ [a] ++ [b]))).min?.getD 0 := by
    refine (le_lowest (by decide)).2 ⟨hne, fun did hdid => le_maxStatus.2 (Or.inr ?_)⟩
    by_cases heq : did = a.readerDid
    · exact ⟨a, by simp, heq.symm, (two_le_status (hpool a ha)).2 hread⟩
    · obtain ⟨r, hr, hrd, hrread⟩ := hall did hdid
      have hother : r ∈ others := List.mem_filter.2 ⟨hr, by simpa [hrd] using heq⟩
      exact ⟨r, by simp [hother], hrd, (two_le_status (hpool r hr)).2 hrread⟩
  have hleast := hd.least h _ hsub
  rw [groupStatus_own h, Option.some.injEq, statusStr_eq_read.2 hideal, statusStr_eq_read,
    le_lowest (by decide)] at hleast
  obtain hneg | ⟨r, hr, hrd, hst⟩ := le_maxStatus.1 (hleast.2 _ hmember)
  · omega
  · have hstand := (mem_fetchGroupReceipts hn hfor).1 hr
    have hrread := (two_le_status (hfor r hstand.mem)).1 hst
    have hfora := hpool a ha
    have hforb := hpool b hb
    have hkey := (groupReceiptKey_inj (hfora.1.trans hforb.1.symm) (hfora.2.1.trans hforb.2.1.symm)).2 ⟨hreader, htime⟩
    rcases standing_concat.1 hstand with rfl | ⟨hstand, hdisplaced⟩
    · rw [hdel] at hrread
      exact absurd hrread (by decide)
    · have hra : r ∈ others ∨ r = a := by simpa using hstand.mem
      rcases hra with hother | rfl
      · have := (List.mem_filter.1 hother).2
        simp [hrd] at this
      · exact hdisplaced hkey.symm

theorem least_of_groupUnclashing (hn : n.Without groupId m.id) (hpool : ∀ r ∈ pool, r.IsFor groupId m.id)
    (hun : GroupUnclashing (n.otherMembers groupId) pool) (has : as ⊆ pool) :
    statusStr (((n.otherMembers groupId).map
      (maxStatus ((n.receive as).storage.fetchGroupReceipts groupId m.id))).min?.getD 0) =
    statusStr (((n.otherMembers groupId).map (maxStatus as)).min?.getD 0) := by
  refine statusStr_congr ?_ ?_
  · rw [le_lowest (by decide), le_lowest (by decide)]
    exact and_congr_right fun _ => forall₂_congr fun did _ => delivered_kept hn hpool has
  · rw [le_lowest (by decide), le_lowest (by decide)]
    refine and_congr_right fun _ => ?_
    rcases hun with ⟨did, hdid, hunread⟩ | hun
    · -- a member that has not read, on either side
      have hnone (l : List GroupReadReceipt) (hl : ∀ r ∈ l, r ∈ as) : ¬ 2 ≤ maxStatus l did := by
        intro h2
        obtain h0 | ⟨r, hr, hrd, hst⟩ := le_maxStatus.1 h2
        · omega
        · have hmem := has (hl r hr)
          exact hunread r hmem hrd ((two_le_status (hpool r hmem)).1 hst)
      have hfetched (r : GroupReadReceipt) (hr : r ∈ (n.receive as).storage.fetchGroupReceipts groupId m.id) : r ∈ as :=
        ((mem_fetchGroupReceipts hn fun r hr => hpool r (has hr)).1 hr).mem
      exact ⟨fun h => (hnone _ hfetched (h did hdid)).elim, fun h => (hnone as (fun _ hr => hr) (h did hdid)).elim⟩
    · exact forall₂_congr fun did hdid => read_kept hn hpool has fun a ha b hb hd =>
        hun a ha b hb (hd ▸ hdid)

theorem maxStatus_congr {bs : List GroupReadReceipt} (h : ∀ r, r ∈ as ↔ r ∈ bs) : maxStatus as = maxStatus bs := by
  funext did
  refine eq_of_forall_le_iff fun c => ?_
  rw [le_maxStatus, le_maxStatus]
  exact or_congr_right (exists_congr fun r => and_congr_left fun _ => h r)

theorem maxStatus_mono {bs : List GroupReadReceipt} {c : ℤ} (h : c ≤ maxStatus as did) :
    c ≤ maxStatus (as ++ bs) did := by
  rw [le_maxStatus] at h ⊢
  refine h.imp_right ?_
  rintro ⟨r, hr, hd, hc⟩
  exact ⟨r, List.mem_append_left _ hr, hd, hc⟩

theorem groupSettled_iff (hn : n.Without groupId m.id) (hpool : ∀ r ∈ pool, r.IsFor groupId m.id) :
    GroupSettled n groupId m pool ↔ (m.senderDid = n.localDid → GroupUnclashing (n.otherMembers groupId) pool) := by
  constructor
  · intro hd h
    exact groupUnclashing_of_least hn hpool h hd
  · intro hun
    have hleast (h : m.senderDid = n.localDid) (as) (has : as ⊆ pool) : (n.receive as).groupStatus groupId m =
        some (statusStr (((n.otherMembers groupId).map (maxStatus as)).min?.getD 0)) := by
      rw [groupStatus_own h, least_of_groupUnclashing hn hpool (hun h) has]
    refine ⟨fun as bs has heq => ?_, fun as bs hsub hread => ?_, hleast⟩
    · by_cases h : m.senderDid = n.localDid
      · rw [hleast h as has, hleast h bs fun r hr => has ((heq r).2 hr), maxStatus_congr heq]
      · rw [groupStatus_others h, groupStatus_others h]
    · by_cases h : m.senderDid = n.localDid
      · rw [hleast h as fun r hr => hsub (List.mem_append_left _ hr), Option.some.injEq, statusStr_eq_read,
          le_lowest (by decide)] at hread
        rw [hleast h _ hsub, Option.some.injEq, statusStr_eq_read, le_lowest (by decide)]
        exact hread.imp_right fun h2 did hdid => maxStatus_mono (h2 did hdid)
      · rw [groupStatus_others h] at hread
        cases hread

end Group

/-- For every pool of receipts for a direct message and every pool for a group message, whatever comes of them and in
whatever order: the statuses are settled by what came if and only if no delivered receipt displaces a read one where a
status is shown, the read ones prevail for the reader asked about, and for the recipient no other reader's are in the
pool. -/
theorem receipts_settled {M : OpenMls} (n : Node M) (s : ReceiptStorage) (m : DirectMessage) (reader : Did)
    (pool : List ReadReceipt) (groupId : String) (gm : GroupMessage) (groupPool : List GroupReadReceipt)
    (hs : s.Without m.id) (hpool : ∀ r ∈ pool, r.IsFor m.id) (hn : n.Without groupId gm.id)
    (hgroup : ∀ r ∈ groupPool, r.IsFor groupId gm.id) :
    (DirectSettled n.localDid n.storage s m reader pool ∧ GroupSettled n groupId gm groupPool) ↔
      ((StatusShown n.localDid n.storage m → Unclashing pool ∧
        (reader = m.recipientDid → ∀ r ∈ pool, r.SeenFor m.id reader)) ∧ ReadPrevails m.id reader pool) ∧
      (gm.senderDid = n.localDid → GroupUnclashing (n.otherMembers groupId) groupPool) := by
  rw [directSettled_iff hs hpool, groupSettled_iff hn hgroup]
  refine and_congr_left fun _ => ?_
  constructor
  · rintro ⟨hun, hprev, hseen⟩
    exact ⟨fun h => ⟨hun h, hseen h⟩, hprev⟩
  · rintro ⟨h, hprev⟩
    exact ⟨fun hs => (h hs).1, hprev, fun hs => (h hs).2⟩

namespace ReceiptOrder
open IdealMls

/-- `did:a`, in a group with `did:b`. -/
def sender : Node idealMls :=
  { localDid := "did:a"
    mls := ⟨"did:a", ⟨[], []⟩,
      (∅ : SledTree GroupState).insert "g" ⟨"g", "did:a", 1, ["did:a", "did:b"], [], none, []⟩, ∅⟩
    storage := .empty
    effects := [] }

def message : DirectMessage :=
  { id := "x", senderDid := "did:a", recipientDid := "did:b", ciphertext := [], olmMessageType := 1, signature := []
    timestamp := 0, type := 1, replyTo := none, senderIdentityKey := none }

def groupMessage : GroupMessage :=
  { id := "y", senderDid := "did:a", groupId := "g", timestamp := 0, type := 1, replyTo := none, mlsCiphertext := [] }

/-- Of `did:b`. -/
def receipt (status timestamp : ℤ) : ReadReceipt := ⟨"x", "did:b", status, timestamp, []⟩

def groupReceipt (status timestamp : ℤ) : GroupReadReceipt := ⟨"y", "g", "did:b", status, timestamp, []⟩

theorem without_empty (id : String) : ReceiptStorage.empty.Without id := fun k r h => by
  simp [ReceiptStorage.empty] at h

theorem sender_without : sender.Without "g" "y" := fun k r h => by
  simp [sender, LocalMessageStorage.empty] at h

theorem receipt_isFor {status timestamp : ℤ} (h : status = receiptDelivered ∨ status = receiptRead) :
    (receipt status timestamp).IsFor message.id := ⟨rfl, h⟩

theorem groupReceipt_isFor {status timestamp : ℤ} (h : status = receiptDelivered ∨ status = receiptRead) :
    (groupReceipt status timestamp).IsFor "g" groupMessage.id := ⟨rfl, rfl, h⟩

/-- Delivered in one millisecond and read in the next. -/
theorem delivered_then_read :
    DirectSettled "did:a" sender.storage .empty message "did:b" [receipt receiptDelivered 1, receipt receiptRead 2] ∧
      GroupSettled sender "g" groupMessage [groupReceipt receiptDelivered 1, groupReceipt receiptRead 2] := by
  have hpool : ∀ r ∈ [receipt receiptDelivered 1, receipt receiptRead 2], r.IsFor message.id := by
    simp only [List.forall_mem_cons, List.not_mem_nil, false_imp_iff, implies_true, and_true]
    exact ⟨receipt_isFor (Or.inl rfl), receipt_isFor (Or.inr rfl)⟩
  have hgroup : ∀ r ∈ [groupReceipt receiptDelivered 1, groupReceipt receiptRead 2], r.IsFor "g" groupMessage.id := by
    simp only [List.forall_mem_cons, List.not_mem_nil, false_imp_iff, implies_true, and_true]
    exact ⟨groupReceipt_isFor (Or.inl rfl), groupReceipt_isFor (Or.inr rfl)⟩
  refine (receipts_settled sender .empty message "did:b" _ "g" groupMessage _ (without_empty _) hpool sender_without
    hgroup).2 ⟨⟨fun _ => ⟨?_, ?_⟩, ?_⟩, fun _ => Or.inr ?_⟩
  · unfold Unclashing
    decide
  · decide +kernel
  · unfold ReadPrevails
    decide +kernel
  · decide +kernel

/-- A read and a delivered receipt of one millisecond: the message is read, and then it is not. -/
theorem read_taken_back : ¬ ∀ (n : Node idealMls) (s : ReceiptStorage) (m : DirectMessage) (reader : Did)
    (pool : List ReadReceipt) (groupId : String) (gm : GroupMessage) (groupPool : List GroupReadReceipt),
    s.Without m.id → (∀ r ∈ pool, r.IsFor m.id) → n.Without groupId gm.id →
    (∀ r ∈ groupPool, r.IsFor groupId gm.id) →
    DirectSettled n.localDid n.storage s m reader pool ∧ GroupSettled n groupId gm groupPool := by
  intro h
  have hpool : ∀ r ∈ [receipt receiptRead 1, receipt receiptDelivered 1], r.IsFor message.id := by
    simp only [List.forall_mem_cons, List.not_mem_nil, false_imp_iff, implies_true, and_true]
    exact ⟨receipt_isFor (Or.inr rfl), receipt_isFor (Or.inl rfl)⟩
  have hstays := ((h sender .empty message "did:b" [receipt receiptRead 1, receipt receiptDelivered 1] "g"
    groupMessage [] (without_empty _) hpool sender_without (by simp)).1.stays [receipt receiptRead 1]
    [receipt receiptDelivered 1] (by simp)).1
  have hrun : directStatus "did:a" sender.storage (ReceiptStorage.empty.receive [receipt receiptRead 1]) message =
        some "read" ∧
      directStatus "did:a" sender.storage (ReceiptStorage.empty.receive
        ([receipt receiptRead 1] ++ [receipt receiptDelivered 1])) message = some "delivered" := by decide +kernel
  have hread := hstays hrun.1
  rw [show sender.localDid = "did:a" from rfl, hrun.2] at hread
  exact absurd hread (by decide)

end ReceiptOrder
end Variance
