import Variance.Lib.Paging
import Variance.Sanity.Padded
import Variance.Sanity.Trees
import Variance.Spec.Sync

/-! What the scan of a group's messages from a time on gives, and which time is the latest. -/

namespace Variance

theorem effectiveLimit_pos (limit : ℕ) : 0 < effectiveLimit limit := by
  unfold effectiveLimit
  split_ifs <;> omega

namespace LocalMessageStorage

open Text

variable {s : LocalMessageStorage} {groupId : String}

/-! The scan -/

theorem collectGroup_eq (pre : String) (limit : ℕ) (entries : List (String × GroupMessage))
    (messages : List GroupMessage) : collectGroup pre limit entries messages =
      Paging.fill limit ((entries.takeWhile fun e => HasPrefix pre e.1).map (·.2)) messages := by
  induction entries generalizing messages with
  | nil => rfl
  | cons e entries ih =>
    obtain ⟨key, message⟩ := e
    rw [collectGroup]
    by_cases hpre : HasPrefix pre key
    · rewrite [if_pos hpre, List.takeWhile_cons_of_pos (by simpa using hpre), List.map_cons, Paging.fill, ← ih]
      rfl
    · rw [if_neg hpre, List.takeWhile_cons_of_neg (by simpa using hpre)]
      rfl

/-- A test that once failed fails ever after picks a first stretch. -/
theorem takeWhile_eq_filter {α : Type} {p : α → Bool} {l : List α}
    (h : l.Pairwise fun a b => p b = true → p a = true) : l.takeWhile p = l.filter p := by
  induction l with
  | nil => rfl
  | cons a l ih =>
    obtain ⟨ha, hl⟩ := List.pairwise_cons.1 h
    by_cases hp : p a = true
    · rw [List.takeWhile_cons_of_pos hp, List.filter_cons_of_pos hp, ih hl]
    · have hnil : l.filter p = [] := List.filter_eq_nil_iff.2 fun b hb hpb => hp (ha b hb hpb)
      rw [List.takeWhile_cons_of_neg hp, List.filter_cons_of_neg hp, hnil]

theorem prefix_sinceKey (since : ℤ) : HasPrefix (groupId ++ ":") (sinceKey groupId since) := by
  rw [sinceKey, String.append_assoc]
  exact hasPrefix_append _ _

theorem fetchGroupSince_eq (since : ℤ) (limit : ℕ) :
    s.fetchGroupSince groupId since limit = (s.range groupId since).take (max 1 limit) := by
  have hstretch : ((s.groupMessages.toList.filter fun e => sinceKey groupId since ≤ e.1).takeWhile
        fun e => HasPrefix (groupId ++ ":") e.1) =
      (scanPrefix (groupId ++ ":") s.groupMessages).filter fun e => sinceKey groupId since ≤ e.1 := by
    rw [takeWhile_eq_filter, scanPrefix, List.filter_comm]
    refine ((keys_sorted s.groupMessages).filter _).imp_of_mem fun {a b} ha _ hab hb => ?_
    -- from the scan's first key on, and before a key of the prefix
    have hstart : ¬ a.1 < sinceKey groupId since := not_lt.2 (of_decide_eq_true (List.mem_filter.1 ha).2)
    exact decide_eq_true (prefix_of_between (prefix_sinceKey since) (of_decide_eq_true hb)
      (fun h => hstart (String.lt_iff.2 h)) fun h => lt_asymm hab (String.lt_iff.2 h))
  rw [fetchGroupSince, collectGroup_eq, Paging.fill_eq (by simp), hstretch]
  rfl

/-! Keys are in the order of their times -/

theorem stamped_lt {a b : ℤ} {u v : String} (h0 : 0 ≤ a) (hab : a < b) (h : b < 10 ^ 20) :
    groupId ++ ":" ++ pad20 a ++ u < groupId ++ ":" ++ pad20 b ++ v := by
  have hlen : (pad20 a).toList.length = (pad20 b).toList.length := by
    rw [length_pad20 h0 (by omega), length_pad20 (by omega) h]
  rw [String.lt_iff]
  simp only [String.toList_append, List.append_assoc, append_lt_append_iff]
  exact append_lt_append hlen (pad20_lt h0 hab h)

theorem groupKey_eq (ts : ℤ) (id : String) : groupKey groupId ts id = groupId ++ ":" ++ pad20 ts ++ (":" ++ id) := by
  rw [groupKey, String.append_assoc]

theorem sinceKey_eq {since : ℤ} (h : since < 2 ^ 63 - 1) :
    sinceKey groupId since = groupId ++ ":" ++ pad20 (since + 1) ++ ":" := by
  have hsucc : saturatingSucc since = since + 1 := by
    unfold saturatingSucc
    omega
  rw [sinceKey, hsucc]

theorem sinceKey_le_iff {since ts : ℤ} {id : String} (h0 : 0 ≤ since) (h : since < 2 ^ 63 - 1) (hts0 : 0 ≤ ts)
    (hts : ts < 2 ^ 63) : sinceKey groupId since ≤ groupKey groupId ts id ↔ since < ts := by
  rw [sinceKey_eq h, groupKey_eq]
  constructor
  · intro hle
    by_contra hlt
    exact not_lt.2 hle (stamped_lt hts0 (by omega) (by omega))
  · intro hlt
    rcases lt_or_eq_of_le (Int.add_one_le_iff.2 hlt) with hlt | rfl
    · exact le_of_lt (stamped_lt (by omega) hlt (by omega))
    · rw [← not_lt, String.lt_iff]
      simp only [String.toList_append, List.append_assoc, append_lt_append_iff]
      exact List.le_append_left

/-! A group's log -/

/-- The messages in the group's range of keys, in the order of the keys. -/
def log (s : LocalMessageStorage) (groupId : String) : List GroupMessage :=
  (scanPrefix (groupId ++ ":") s.groupMessages).map (·.2)

/-- The time a member that syncs gives as its own. -/
def newest (s : LocalMessageStorage) (groupId : String) : ℤ := (s.latestGroupTimestamp groupId).getD 0

variable {m a b : GroupMessage}

theorem prefix_groupKey (ts : ℤ) (id : String) : HasPrefix (groupId ++ ":") (groupKey groupId ts id) := by
  rw [groupKey_eq, String.append_assoc]
  exact hasPrefix_append _ _

theorem InOrder.mem_log (h : s.InOrder groupId) :
    m ∈ s.log groupId ↔ s.groupMessages[m.key]? = some m ∧ m.groupId = groupId := by
  rw [log, List.mem_map]
  constructor
  · rintro ⟨⟨k, m⟩, he, rfl⟩
    obtain ⟨hk, hp⟩ := mem_scanPrefix.1 he
    exact ⟨(h.filed k m hk).symm ▸ hk, h.own k m hk hp⟩
  · rintro ⟨hm, rfl⟩
    exact ⟨(m.key, m), mem_scanPrefix.2 ⟨hm, prefix_groupKey _ _⟩, rfl⟩

theorem InOrder.mem_groupHistory (h : s.InOrder groupId) : m ∈ s.groupHistory groupId ↔ m ∈ s.log groupId := by
  rw [h.mem_log, groupHistory, List.mem_filter, decide_eq_true_iff, List.mem_map]
  refine and_congr_left fun _ => ⟨?_, fun hm => ⟨(m.key, m), (mem_iter _).2 hm, rfl⟩⟩
  rintro ⟨⟨k, m⟩, he, rfl⟩
  have hk := (mem_iter _).1 he
  exact (h.filed k m hk).symm ▸ hk

theorem InOrder.timed_log (h : s.InOrder groupId) (hm : m ∈ s.log groupId) :
    0 ≤ m.timestamp ∧ m.timestamp < 2 ^ 63 - 1 :=
  h.timed m.key m (h.mem_log.1 hm).1 (h.mem_log.1 hm).2

theorem InOrder.sorted_log (h : s.InOrder groupId) :
    (s.log groupId).Pairwise fun a b => a.timestamp ≤ b.timestamp := by
  refine List.pairwise_map.2 (((keys_sorted s.groupMessages).filter _).imp_of_mem fun {x y} hx hy hxy => ?_)
  have hmem (e : String × GroupMessage) (he : e ∈ scanPrefix (groupId ++ ":") s.groupMessages) :
      e.2 ∈ s.log groupId ∧ e.1 = groupKey groupId e.2.timestamp e.2.id := by
    have hlog : e.2 ∈ s.log groupId := List.mem_map_of_mem he
    refine ⟨hlog, ?_⟩
    rw [← h.filed e.1 e.2 (mem_scanPrefix.1 he).1, GroupMessage.key, (h.mem_log.1 hlog).2]
  obtain ⟨hx, hkx⟩ := hmem x hx
  obtain ⟨hy, hky⟩ := hmem y hy
  have htx := h.timed_log hx
  have hty := h.timed_log hy
  by_contra hlt
  rw [hkx, hky, groupKey_eq, groupKey_eq] at hxy
  exact lt_asymm hxy (stamped_lt hty.1 (not_le.1 hlt) (by omega))

/-- From the key of a time on lies what was sent after it. -/
theorem InOrder.range_eq (h : s.InOrder groupId) {since : ℤ} (h0 : 0 ≤ since) (h1 : since < 2 ^ 63 - 1) :
    s.range groupId since = (s.log groupId).filter fun m => since < m.timestamp := by
  rw [range, log, List.filter_map]
  refine congrArg _ (List.filter_congr fun e he => ?_)
  have hlog : e.2 ∈ s.log groupId := List.mem_map_of_mem he
  have ht := h.timed_log hlog
  have hkey : e.1 = groupKey groupId e.2.timestamp e.2.id := by
    rw [← h.filed e.1 e.2 (mem_scanPrefix.1 he).1, GroupMessage.key, (h.mem_log.1 hlog).2]
  rw [Function.comp_apply, decide_eq_decide, hkey]
  exact sinceKey_le_iff h0 h1 ht.1 (by omega)

theorem newest_eq : s.newest groupId = ((s.log groupId).getLast?.map (·.timestamp)).getD 0 := by
  rw [newest, latestGroupTimestamp, log, List.getLast?_map, Option.map_map]
  rfl

theorem InOrder.le_newest (h : s.InOrder groupId) (hm : m ∈ s.log groupId) : m.timestamp ≤ s.newest groupId := by
  rw [newest_eq]
  cases hlast : (s.log groupId).getLast? with
  | none =>
    rw [List.getLast?_eq_none_iff.1 hlast] at hm
    cases hm
  | some a =>
    obtain ⟨init, hinit⟩ := List.getLast?_eq_some_iff.1 hlast
    have hsorted := h.sorted_log
    rw [hinit] at hsorted hm
    rcases List.mem_append.1 hm with hm | hm
    · exact (List.pairwise_append.1 hsorted).2.2 m hm a (List.mem_singleton_self a)
    · rw [List.mem_singleton.1 hm]
      exact le_refl _

theorem newest_zero_or_mem : s.newest groupId = 0 ∨ ∃ m ∈ s.log groupId, m.timestamp = s.newest groupId := by
  rw [newest_eq]
  cases hlast : (s.log groupId).getLast? with
  | none => exact Or.inl rfl
  | some a => exact Or.inr ⟨a, List.mem_of_getLast? hlast, rfl⟩

theorem InOrder.newest_bounds (h : s.InOrder groupId) : 0 ≤ s.newest groupId ∧ s.newest groupId < 2 ^ 63 - 1 := by
  have hnewest : s.newest groupId = 0 ∨ ∃ m ∈ s.log groupId, m.timestamp = s.newest groupId := newest_zero_or_mem
  rcases hnewest with h0 | ⟨m, hm, ht⟩
  · omega
  · rw [← ht]
    exact h.timed_log hm

end LocalMessageStorage
end Variance
