import Variance.Sanity.Filed
import Variance.Spec.History

/-! Paging back through a history by the timestamp of the oldest message shown covers it exactly when no two of its
messages share a timestamp and the keys are in the order of time. -/

namespace Variance
namespace LocalMessageStorage

open Paging.Feed

section
variable {β : Type} {timestamp : β → ℤ} {pre : String} {t : SledTree β}

/-- The entries under a prefix, the last one first. -/
def newestFirst (pre : String) (t : SledTree β) : List β := (scanPrefix pre t).reverse.map (·.2)

theorem pageBefore_eq (limit : ℕ) (before : Option ℤ) :
    pageBefore timestamp pre t limit before = (timed timestamp (newestFirst pre t)).page limit before := by
  unfold pageBefore page after newestFirst
  cases before with
  | none => rfl
  | some ts => rfl

/-- The client's pages are those of the feed. -/
theorem readHistory_eq (limit fuel : ℕ) (before : Option ℤ) :
    readHistory timestamp (pageBefore timestamp pre t limit) fuel before =
      (timed timestamp (newestFirst pre t)).pages limit fuel before := by
  induction fuel generalizing before with
  | zero => rfl
  | succ fuel ih =>
    rw [readHistory, pages, pageBefore_eq]
    cases (timed timestamp (newestFirst pre t)).page limit before with
    | nil => rfl
    | cons oldest rest => exact congrArg (Option.map _) (ih (some (timestamp oldest)))

/-- Of a tree the wanted values: `wanted` picks from all of it, and what it picks lies under the prefix. -/
theorem perm_newestFirst_iff {wanted : β → Bool} (hpre : ∀ e ∈ t.toList, wanted e.2 = true → Text.HasPrefix pre e.1) :
    (newestFirst pre t).Perm ((t.toList.map (·.2)).filter wanted) ↔ ∀ e ∈ scanPrefix pre t, wanted e.2 = true := by
  constructor
  · intro h e he
    have hmem : e.2 ∈ newestFirst pre t := List.mem_map_of_mem (List.mem_reverse.2 he)
    exact (List.mem_filter.1 (h.mem_iff.1 hmem)).2
  · intro h
    have hscan : scanPrefix pre t = t.toList.filter fun e => wanted e.2 := by
      refine List.filter_congr fun e he => ?_
      rw [Bool.eq_iff_iff, decide_eq_true_iff]
      exact ⟨fun hp => h e (List.mem_filter.2 ⟨he, by simpa using hp⟩), hpre e he⟩
    rw [newestFirst, hscan, List.filter_map]
    exact (List.reverse_perm _).map _

theorem covers_iff {wanted : β → Bool} (hpre : ∀ e ∈ t.toList, wanted e.2 = true → Text.HasPrefix pre e.1) :
    Covers timestamp (pageBefore timestamp pre t) ((t.toList.map (·.2)).filter wanted) ↔
      StrictlyTimed timestamp pre t fun m => wanted m = true := by
  have hread : Covers timestamp (pageBefore timestamp pre t) ((t.toList.map (·.2)).filter wanted) ↔
      ∀ limit, 0 < limit →
        Enumerates timestamp (newestFirst pre t) limit none ((t.toList.map (·.2)).filter wanted) := by
    unfold Covers Enumerates
    simp only [readHistory_eq]
  have horder : (newestFirst pre t).Pairwise (fun a b => timestamp b < timestamp a) ↔
      ((scanPrefix pre t).map (·.2)).Pairwise fun a b => timestamp a < timestamp b := by
    rw [newestFirst, List.map_reverse, List.pairwise_reverse]
  rw [hread, enumerates_iff, perm_newestFirst_iff hpre, horder]
  exact and_comm

end

theorem conversationId_comm (a b : Did) : conversationId a b = conversationId b a := by
  unfold conversationId
  by_cases h : a = b
  · rw [h]
  · by_cases hle : a ≤ b
    · rw [if_pos hle, if_neg fun hge => h (le_antisymm hle hge)]
    · rw [if_neg hle, if_pos ((le_total a b).resolve_left hle)]

/-- Both directions of a conversation are filed under one id. -/
theorem conversationId_of_chat {a b : Did} {m : DirectMessage} (h : m.chat = .direct s(a, b)) :
    conversationId m.senderDid m.recipientDid = conversationId a b := by
  rcases Sym2.eq_iff.1 (Chat.direct.inj h) with ⟨ha, hb⟩ | ⟨ha, hb⟩
  · rw [ha, hb]
  · rw [ha, hb, conversationId_comm]

variable {s : LocalMessageStorage}

theorem Filed.direct_prefix (h : s.Filed) {a b : Did} {e : String × DirectMessage} (he : e ∈ s.directMessages.toList)
    (hc : e.2.chat = .direct s(a, b)) : Text.HasPrefix (conversationId a b ++ ":") e.1 := by
  rw [← h.direct e.1 e.2 ((mem_iter _).1 he), DirectMessage.key, directKey, conversationId_of_chat hc,
    String.append_assoc, String.append_assoc]
  exact Text.hasPrefix_append _ _

theorem Filed.group_prefix (h : s.Filed) {groupId : String} {e : String × GroupMessage}
    (he : e ∈ s.groupMessages.toList) (hg : e.2.groupId = groupId) : Text.HasPrefix (groupId ++ ":") e.1 := by
  rw [← h.group e.1 e.2 ((mem_iter _).1 he), GroupMessage.key, groupKey, hg,
    String.append_assoc, String.append_assoc]
  exact Text.hasPrefix_append _ _

/-- For every store and every conversation and group: all page sizes cover the history exactly when in the order of
the keys its timestamps go strictly up, and no other conversation's key lies among its own. -/
theorem history_covered_iff (s : LocalMessageStorage) (h : s.Filed) (a b : Did) (groupId : String) :
    (Covers (·.timestamp) (s.fetchDirect a b) (s.directHistory a b) ↔
      StrictlyTimed (·.timestamp) (conversationId a b ++ ":") s.directMessages fun m => m.chat = .direct s(a, b)) ∧
    (Covers (·.timestamp) (s.fetchGroup groupId) (s.groupHistory groupId) ↔
      StrictlyTimed (·.timestamp) (groupId ++ ":") s.groupMessages fun m => m.groupId = groupId) := by
  constructor
  · have hiff : Covers DirectMessage.timestamp (s.fetchDirect a b)
          ((s.directMessages.toList.map (·.2)).filter fun m => decide (m.chat = .direct s(a, b))) ↔
        StrictlyTimed DirectMessage.timestamp (conversationId a b ++ ":") s.directMessages
          fun m => decide (m.chat = .direct s(a, b)) = true :=
      covers_iff fun e he hc => h.direct_prefix he (of_decide_eq_true hc)
    simp only [decide_eq_true_eq] at hiff
    exact hiff
  · have hiff : Covers GroupMessage.timestamp (s.fetchGroup groupId)
          ((s.groupMessages.toList.map (·.2)).filter fun m => decide (m.groupId = groupId)) ↔
        StrictlyTimed GroupMessage.timestamp (groupId ++ ":") s.groupMessages
          fun m => decide (m.groupId = groupId) = true :=
      covers_iff fun e he hg => h.group_prefix he (of_decide_eq_true hg)
    simp only [decide_eq_true_eq] at hiff
    exact hiff

end LocalMessageStorage
namespace HistoryPaging

open LocalMessageStorage

def message (id : String) (ts : ℤ) : GroupMessage :=
  { id := id, senderDid := "did:a", groupId := "g", timestamp := ts, type := 0, replyTo := none, mlsCiphertext := [] }

/-- A store that has received two messages of a group. -/
def store (ts₁ ts₂ : ℤ) : LocalMessageStorage :=
  (LocalMessageStorage.empty.apply noFaults (.group (message "x" ts₁))).apply noFaults (.group (message "y" ts₂))

theorem filed_store (ts₁ ts₂ : ℤ) : (store ts₁ ts₂).Filed := (Filed.empty.apply _ _).apply _ _

/-- Two messages of one millisecond: the page that ends between them is the last. -/
theorem tied_lost : ¬ ∀ s : LocalMessageStorage, s.Filed → ∀ (a b : Did) (groupId : String),
    Covers (·.timestamp) (s.fetchDirect a b) (s.directHistory a b) ∧
      Covers (·.timestamp) (s.fetchGroup groupId) (s.groupHistory groupId) := by
  intro h
  obtain ⟨fuel, pages, hr, hperm, -⟩ := (h (store 1 1) (filed_store 1 1) "did:a" "did:b" "g").2 1 Nat.one_pos
  have hrun : (store 1 1).fetchGroup "g" 1 none = [message "y" 1] ∧ (store 1 1).fetchGroup "g" 1 (some 1) = [] ∧
      ((store 1 1).groupHistory "g").length = 2 := by decide +kernel
  obtain ⟨hfirst, hsecond, hall⟩ := hrun
  match fuel with
  | 0 => cases hr
  | 1 =>
    rw [readHistory, hfirst] at hr
    cases hr
  | fuel + 2 =>
    rw [readHistory, hfirst] at hr
    dsimp only at hr
    rw [readHistory, show (message "y" 1).timestamp = 1 from rfl, hsecond] at hr
    obtain rfl := Option.some.inj hr
    have hlen := hperm.length_eq
    rw [hall] at hlen
    cases hlen

/-- One millisecond apart, and next to a conversation that has nothing, they are all read. -/
theorem apart_covered : Covers (·.timestamp) ((store 1 2).fetchDirect "did:a" "did:b")
      ((store 1 2).directHistory "did:a" "did:b") ∧
    Covers (·.timestamp) ((store 1 2).fetchGroup "g") ((store 1 2).groupHistory "g") := by
  have hkeys : scanPrefix (conversationId "did:a" "did:b" ++ ":") (store 1 2).directMessages = [] ∧
      (scanPrefix ("g" ++ ":") (store 1 2).groupMessages).map (·.2) = [message "x" 1, message "y" 2] := by
    decide +kernel
  have hiff := history_covered_iff (store 1 2) (filed_store 1 2) "did:a" "did:b" "g"
  refine ⟨hiff.1.2 ?_, hiff.2.2 ?_⟩
  · rw [StrictlyTimed, hkeys.1]
    exact ⟨List.Pairwise.nil, by simp⟩
  · refine ⟨?_, fun e he => ?_⟩
    · rw [hkeys.2]
      decide
    · have hmem : e.2 ∈ [message "x" 1, message "y" 2] := hkeys.2 ▸ List.mem_map_of_mem he
      rcases List.mem_cons.1 hmem with hx | hy
      · rw [hx]
        rfl
      · rw [List.mem_singleton.1 hy]
        rfl

end HistoryPaging
end Variance
