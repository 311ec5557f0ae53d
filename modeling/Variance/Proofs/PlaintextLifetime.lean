import Variance.Sanity.Trees
import Variance.Spec.Retention

/-! A cached plaintext outlives its message just where a step takes the message and not the plaintext: the retention
cleanup never drops one. -/

namespace Variance

open CacheCover

namespace LocalMessageStorage
variable {s : LocalMessageStorage} {f : Faults} {tree : String}

/-- A bulk removal takes what comes before its first failure. -/
theorem takes_removeAll {μ : Type} {keys : List String} {t : SledTree μ} {cache cache' : String → Option MessageContent}
    {dropped : Set String} (hc : ∀ i ∉ dropped, cache' i = cache i) (hd : ∀ i ∈ dropped, cache' i = none) :
    Takes (fun k : String => t[k]?) (fun k : String => (treeRemoveAll f tree keys t).2[k]?) cache cache'
      (removable f tree keys) dropped where
  kept k hk := by
    rw [get_treeRemoveAll]
    exact if_neg hk
  gone k hk := by
    rw [get_treeRemoveAll]
    exact if_pos hk
  cached := hc
  uncached := hd

/-- An insertion takes at most what it displaces. -/
theorem insert_covered_iff {μ : Type} {name : μ → String} {key : String} {m : μ} {t : SledTree μ}
    {cache : String → Option MessageContent} (hc : Covered name (fun k : String => t[k]?) cache) :
    Covered name (fun k : String => (treeInsert f tree key m t).2[k]?) cache ↔
      Spares name (fun k : String => t[k]?) cache
        {k | f tree key = false ∧ k = key ∧ ∀ x, t[k]? = some x → name x ≠ name m} ∅ := by
  by_cases hf : f tree key = true
  · have hsame : (treeInsert f tree key m t).2 = t := by
      unfold treeInsert
      rw [if_pos hf]
    rw [hsame]
    refine iff_of_true hc fun k hk => ?_
    have := hk.1
    rw [hf] at this
    cases this
  · rw [Bool.not_eq_true] at hf
    have hset : {k | f tree key = false ∧ k = key ∧ ∀ x, t[k]? = some x → name x ≠ name m} =
        {k | k = key ∧ ∀ x, t[key]? = some x → name x ≠ name m} := by
      ext k
      constructor
      · rintro ⟨-, rfl, hx⟩
        exact ⟨rfl, hx⟩
      · rintro ⟨rfl, hx⟩
        exact ⟨hf, rfl, hx⟩
    rw [hset, treeInsert_ok hf]
    refine put_covered_iff (by simp) (fun k hk => ?_) hc
    rw [get_insert, if_neg (Ne.symm hk)]

theorem cache_covered {μ : Type} {name : μ → String} {key : String} {m : μ} {t : SledTree μ}
    {p : SledTree MessageContent} {content : MessageContent} (hm : t[key]? = some m)
    (hc : Covered name (fun k : String => t[k]?) fun i : String => p[i]?) :
    Covered name (fun k : String => t[k]?) fun i : String => (treeInsert f tree (name m) content p).2[i]? := by
  refine hc.caching hm fun i hi => ?_
  rw [get_treeInsert, if_neg fun h => hi h.1.symm]

theorem deleteDirectConversation_history (a b : Did) :
    (s.deleteDirectConversation f a b).2.directMessages = (treeRemoveAll f "direct_messages"
        ((scanPrefix (conversationId a b ++ ":") s.directMessages).map (·.1)) s.directMessages).2 ∧
      (s.deleteDirectConversation f a b).2.groupMessages = s.groupMessages ∧
      (s.deleteDirectConversation f a b).2.groupPlaintext = s.groupPlaintext ∧
      (∀ i ∉ s.directDropped (.deleteConversation f a b),
        (s.deleteDirectConversation f a b).2.plaintext[i]? = s.plaintext[i]?) ∧
      ∀ i ∈ s.directDropped (.deleteConversation f a b),
        (s.deleteDirectConversation f a b).2.plaintext[i]? = none := by
  have hok := @treeRemoveAll_ok_iff _ f "direct_messages" s.directMessages
    ((scanPrefix (conversationId a b ++ ":") s.directMessages).map (·.1))
  unfold deleteDirectConversation
  dsimp only
  split
  · rename_i e t heq
    rw [heq] at hok
    refine ⟨by rw [heq], rfl, rfl, fun _ _ => rfl, fun i hi => ?_⟩
    have := hok.2 hi.1
    cases this
  · rename_i t heq
    rw [heq] at hok
    refine ⟨by rw [heq], rfl, rfl, fun i hi => ?_, fun i hi => ?_⟩
    · exact get_removed.trans (if_neg fun h => hi ⟨hok.1 rfl, h⟩)
    · exact get_removed.trans (if_pos hi.2)

theorem deleteGroupMessages_history (g : String) :
    (s.deleteGroupMessages f g).2.groupMessages = (treeRemoveAll f "group_messages"
        ((scanPrefix (g ++ ":") s.groupMessages).map (·.1)) s.groupMessages).2 ∧
      (s.deleteGroupMessages f g).2.directMessages = s.directMessages ∧
      (s.deleteGroupMessages f g).2.plaintext = s.plaintext ∧
      (∀ i ∉ s.groupDropped (.deleteGroup f g),
        (s.deleteGroupMessages f g).2.groupPlaintext[i]? = s.groupPlaintext[i]?) ∧
      ∀ i ∈ s.groupDropped (.deleteGroup f g), (s.deleteGroupMessages f g).2.groupPlaintext[i]? = none := by
  have hok := @treeRemoveAll_ok_iff _ f "group_messages" s.groupMessages
    ((scanPrefix (g ++ ":") s.groupMessages).map (·.1))
  unfold deleteGroupMessages
  dsimp only
  split
  · rename_i e t heq
    rw [heq] at hok
    refine ⟨by rw [heq], rfl, rfl, fun _ _ => rfl, fun i hi => ?_⟩
    have := hok.2 hi.1
    cases this
  · rename_i t heq
    rw [heq] at hok
    refine ⟨by rw [heq], rfl, rfl, fun i hi => ?_, fun i hi => ?_⟩
    · exact get_removed.trans (if_neg fun h => hi ⟨hok.1 rfl, h⟩)
    · exact get_removed.trans (if_pos hi.2)

theorem deleteDirectById_history (a b : Did) (ts : ℤ) (id : String) :
    (s.deleteDirectById f a b ts id).2.directMessages =
        (treeRemoveAll f "direct_messages" [directKey a b ts id] s.directMessages).2 ∧
      (s.deleteDirectById f a b ts id).2.groupMessages = s.groupMessages ∧
      (s.deleteDirectById f a b ts id).2.groupPlaintext = s.groupPlaintext ∧
      (∀ i ∉ s.directDropped (.deleteDirect f a b ts id),
        (s.deleteDirectById f a b ts id).2.plaintext[i]? = s.plaintext[i]?) ∧
      ∀ i ∈ s.directDropped (.deleteDirect f a b ts id), (s.deleteDirectById f a b ts id).2.plaintext[i]? = none := by
  unfold deleteDirectById
  dsimp only
  by_cases hf : f "direct_messages" (directKey a b ts id) = true
  · rw [treeRemove, if_pos hf, treeRemoveAll, if_pos hf]
    refine ⟨rfl, rfl, rfl, fun _ _ => rfl, fun i hi => ?_⟩
    have := hi.1
    rw [hf] at this
    cases this
  · rw [treeRemoveAll, if_neg hf]
    rw [Bool.not_eq_true] at hf
    rw [treeRemove_ok hf]
    refine ⟨rfl, rfl, rfl, fun i hi => ?_, fun i hi => ?_⟩
    · refine get_treeRemove.trans (if_neg ?_)
      rintro ⟨rfl, h⟩
      exact hi ⟨hf, rfl, h⟩
    · obtain ⟨-, rfl, h⟩ := hi
      exact get_treeRemove.trans (if_pos ⟨rfl, h⟩)

/-- One step of the direct messages' half. -/
theorem direct_covered_iff (h : s.PlaintextCovered) (op : StorageOp) :
    Covered DirectMessage.id (fun k : String => (s.perform op).directMessages[k]?)
        (fun i : String => (s.perform op).plaintext[i]?) ↔
      Spares DirectMessage.id (fun k : String => s.directMessages[k]?) (fun i : String => s.plaintext[i]?)
        (s.directTaken op) (s.directDropped op) := by
  cases op with
  | storeDirect f m => exact insert_covered_iff h.direct
  | storeGroup f m => exact iff_of_true h.direct (spares_empty _)
  | cacheDirect f key content =>
    refine iff_of_true ?_ (spares_empty _)
    cases hm : s.directMessages[key]? with
    | none =>
      have hsame : s.perform (.cacheDirect f key content) = s := by simp only [perform, hm]
      rw [hsame]
      exact h.direct
    | some m =>
      have hsame : s.perform (.cacheDirect f key content) = (s.storePlaintext f m.id content).2 := by
        simp only [perform, hm]
      rw [hsame]
      exact cache_covered hm h.direct
  | cacheGroup f key content =>
    have hsame : (s.perform (.cacheGroup f key content)).directMessages = s.directMessages ∧
        (s.perform (.cacheGroup f key content)).plaintext = s.plaintext := by
      unfold perform
      dsimp only
      split <;> exact ⟨rfl, rfl⟩
    rw [hsame.1, hsame.2]
    exact iff_of_true h.direct (spares_empty _)
  | cleanupDirect f cutoffMs =>
    exact (takes_removeAll (fun _ _ => rfl) fun _ hi => (Set.notMem_empty _ hi).elim).covered_iff h.direct
  | cleanupGroup f cutoffMs => exact iff_of_true h.direct (spares_empty _)
  | deleteConversation f a b =>
    obtain ⟨hdirect, -, -, hkept, hgone⟩ := @deleteDirectConversation_history s f a b
    show Covered _ (fun k : String => (s.deleteDirectConversation f a b).2.directMessages[k]?) _ ↔ _
    rw [hdirect]
    exact (takes_removeAll hkept hgone).covered_iff h.direct
  | deleteDirect f a b ts id =>
    obtain ⟨hdirect, -, -, hkept, hgone⟩ := @deleteDirectById_history s f a b ts id
    show Covered _ (fun k : String => (s.deleteDirectById f a b ts id).2.directMessages[k]?) _ ↔ _
    rw [hdirect]
    exact (takes_removeAll hkept hgone).covered_iff h.direct
  | deleteGroup f g =>
    obtain ⟨-, hdirect, hplain, -, -⟩ := @deleteGroupMessages_history s f g
    show Covered _ (fun k : String => (s.deleteGroupMessages f g).2.directMessages[k]?)
      (fun i : String => (s.deleteGroupMessages f g).2.plaintext[i]?) ↔ _
    rw [hdirect, hplain]
    exact iff_of_true h.direct (spares_empty _)

/-- And of the groups'. -/
theorem group_covered_iff (h : s.PlaintextCovered) (op : StorageOp) :
    Covered GroupMessage.id (fun k : String => (s.perform op).groupMessages[k]?)
        (fun i : String => (s.perform op).groupPlaintext[i]?) ↔
      Spares GroupMessage.id (fun k : String => s.groupMessages[k]?) (fun i : String => s.groupPlaintext[i]?)
        (s.groupTaken op) (s.groupDropped op) := by
  cases op with
  | storeDirect f m => exact iff_of_true h.group (spares_empty _)
  | storeGroup f m => exact insert_covered_iff h.group
  | cacheDirect f key content =>
    have hsame : (s.perform (.cacheDirect f key content)).groupMessages = s.groupMessages ∧
        (s.perform (.cacheDirect f key content)).groupPlaintext = s.groupPlaintext := by
      unfold perform
      dsimp only
      split <;> exact ⟨rfl, rfl⟩
    rw [hsame.1, hsame.2]
    exact iff_of_true h.group (spares_empty _)
  | cacheGroup f key content =>
    refine iff_of_true ?_ (spares_empty _)
    cases hm : s.groupMessages[key]? with
    | none =>
      have hsame : s.perform (.cacheGroup f key content) = s := by simp only [perform, hm]
      rw [hsame]
      exact h.group
    | some m =>
      have hsame : s.perform (.cacheGroup f key content) = (s.storeGroupPlaintext f m.id content).2 := by
        simp only [perform, hm]
      rw [hsame]
      exact cache_covered hm h.group
  | cleanupDirect f cutoffMs => exact iff_of_true h.group (spares_empty _)
  | cleanupGroup f cutoffMs =>
    exact (takes_removeAll (fun _ _ => rfl) fun _ hi => (Set.notMem_empty _ hi).elim).covered_iff h.group
  | deleteConversation f a b =>
    obtain ⟨-, hgroup, hplain, -, -⟩ := @deleteDirectConversation_history s f a b
    show Covered _ (fun k : String => (s.deleteDirectConversation f a b).2.groupMessages[k]?)
      (fun i : String => (s.deleteDirectConversation f a b).2.groupPlaintext[i]?) ↔ _
    rw [hgroup, hplain]
    exact iff_of_true h.group (spares_empty _)
  | deleteDirect f a b ts id =>
    obtain ⟨-, hgroup, hplain, -, -⟩ := @deleteDirectById_history s f a b ts id
    show Covered _ (fun k : String => (s.deleteDirectById f a b ts id).2.groupMessages[k]?)
      (fun i : String => (s.deleteDirectById f a b ts id).2.groupPlaintext[i]?) ↔ _
    rw [hgroup, hplain]
    exact iff_of_true h.group (spares_empty _)
  | deleteGroup f g =>
    obtain ⟨hgroup, -, -, hkept, hgone⟩ := @deleteGroupMessages_history s f g
    show Covered _ (fun k : String => (s.deleteGroupMessages f g).2.groupMessages[k]?) _ ↔ _
    rw [hgroup]
    exact (takes_removeAll hkept hgone).covered_iff h.group

theorem covered_perform_iff (h : s.PlaintextCovered) (op : StorageOp) :
    (s.perform op).PlaintextCovered ↔ s.PlaintextSpared op := by
  have hdirect := direct_covered_iff h op
  have hgroup := group_covered_iff h op
  exact ⟨fun hc => ⟨hdirect.1 hc.direct, hgroup.1 hc.group⟩, fun hs => ⟨hdirect.2 hs.direct, hgroup.2 hs.group⟩⟩

theorem covered_empty : PlaintextCovered .empty :=
  ⟨fun i hi => by simp [LocalMessageStorage.empty] at hi, fun i hi => by simp [LocalMessageStorage.empty] at hi⟩

/-- Along every sequence of storage operations: every cached plaintext is that of a stored message after each of them
if and only if each spares the plaintexts of what it takes. -/
theorem plaintexts_covered (ops : List StorageOp) :
    StepSystem.Guarded storageSys (fun s op => (s.perform op).PlaintextCovered) .empty ops ↔
      StepSystem.Guarded storageSys PlaintextSpared .empty ops :=
  StepSystem.guarded_iff (I := PlaintextCovered) (fun _ op h => covered_perform_iff h op)
    (fun _ op h hs => (covered_perform_iff h op).2 hs) covered_empty ops

end LocalMessageStorage
namespace PlaintextLifetime

def message : DirectMessage :=
  { id := "x", senderDid := "did:a", recipientDid := "did:b", ciphertext := [], olmMessageType := 1, signature := []
    timestamp := 1, type := 1, replyTo := none, senderIdentityKey := none }

/-- A message is stored with its plaintext, and grows old. -/
def aged : List StorageOp :=
  [.storeDirect noFaults message, .cacheDirect noFaults message.key (.control []), .cleanupDirect noFaults 2]

/-- The cleanup leaves the plaintext behind. -/
theorem plaintext_outlives : ¬ ∀ ops : List StorageOp,
    StepSystem.Guarded storageSys (fun s op => (s.perform op).PlaintextCovered) .empty ops := by
  intro h
  have hcovered : (aged.foldl LocalMessageStorage.perform .empty).PlaintextCovered := (h aged).2.2.1
  have hrun : ((aged.foldl LocalMessageStorage.perform .empty).plaintext["x"]?).isSome = true ∧
      (aged.foldl LocalMessageStorage.perform .empty).directMessages.toList = [] := by decide +kernel
  obtain ⟨hcached, hgone⟩ := hrun
  obtain ⟨k, m, hm, -⟩ := hcovered.direct "x" (Option.isSome_iff_ne_none.1 hcached)
  have hmem := mem_iter (aged.foldl LocalMessageStorage.perform .empty).directMessages (e := (k, m))
  rw [hgone] at hmem
  exact absurd (hmem.2 hm) List.not_mem_nil

end PlaintextLifetime
end Variance
