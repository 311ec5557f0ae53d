import Variance.Sanity.Sessions
import Variance.Sanity.Writes
import Variance.Spec.History

/-! Every stored message lies under its own key, and which messages and cached contents a write can touch. -/

namespace Variance
namespace LocalMessageStorage

/-- Every message lies under the key that its own fields make. -/
structure Filed (s : LocalMessageStorage) : Prop where
  direct : ∀ (k : String) (m : DirectMessage), s.directMessages[k]? = some m → m.key = k
  group : ∀ (k : String) (m : GroupMessage), s.groupMessages[k]? = some m → m.key = k

variable {s s' : LocalMessageStorage} {f : Faults} {k id : String}

theorem Filed.empty : Filed .empty :=
  ⟨fun _ _ h => by simp [LocalMessageStorage.empty] at h, fun _ _ h => by simp [LocalMessageStorage.empty] at h⟩

/-- Messages that only go. -/
theorem Filed.sub (h : s.Filed)
    (hd : ∀ (k : String) (m : DirectMessage), s'.directMessages[k]? = some m → s.directMessages[k]? = some m)
    (hg : ∀ (k : String) (m : GroupMessage), s'.groupMessages[k]? = some m → s.groupMessages[k]? = some m) :
    s'.Filed :=
  ⟨fun k m hm => h.direct k m (hd k m hm), fun k m hm => h.group k m (hg k m hm)⟩

theorem deleteGroupMessages_groupMessages {g : String} : (s.deleteGroupMessages f g).2.groupMessages =
    (treeRemoveAll f "group_messages" ((scanPrefix (g ++ ":") s.groupMessages).map (·.1)) s.groupMessages).2 := by
  unfold deleteGroupMessages
  dsimp only
  split
  · rename_i heq
    rw [heq]
  · rename_i heq
    rw [heq]

theorem deleteGroupMessages_direct {g : String} :
    (s.deleteGroupMessages f g).2.directMessages = s.directMessages ∧
      (s.deleteGroupMessages f g).2.plaintext = s.plaintext := by
  unfold deleteGroupMessages
  dsimp only
  split
  · exact ⟨rfl, rfl⟩
  · exact ⟨rfl, rfl⟩

/-- A group's messages go, and nothing else; of the cached contents only those under their ids. -/
theorem deleteGroupMessages_spares {g : String} (hk : ¬ Text.HasPrefix (g ++ ":") k) :
    (s.deleteGroupMessages f g).2.groupMessages[k]? = s.groupMessages[k]? := by
  rw [deleteGroupMessages_groupMessages]
  refine get_treeRemoveAll_of_notMem fun hmem => ?_
  obtain ⟨e, he, rfl⟩ := List.mem_map.1 hmem
  exact hk (mem_scanPrefix.1 he).2

theorem deleteGroupMessages_cached {g : String} (hid : ∀ (k : String) m, s.groupMessages[k]? = some m →
    Text.HasPrefix (g ++ ":") k → afterLastColon k ≠ some id) :
    (s.deleteGroupMessages f g).2.groupPlaintext[id]? = s.groupPlaintext[id]? := by
  unfold deleteGroupMessages
  dsimp only
  split
  · rfl
  · refine get_removed.trans (if_neg fun ⟨hmem, _⟩ => ?_)
    obtain ⟨k, hk, hlast⟩ := List.mem_filterMap.1 hmem
    obtain ⟨e, he, rfl⟩ := List.mem_map.1 hk
    exact hid e.1 e.2 (mem_scanPrefix.1 he).1 (mem_scanPrefix.1 he).2 hlast

theorem deleteDirectById_direct {a b : Did} {ts : ℤ} (hk : directKey a b ts id ≠ k) :
    (s.deleteDirectById f a b ts id).2.directMessages[k]? = s.directMessages[k]? := by
  unfold deleteDirectById
  by_cases hf : f "direct_messages" (directKey a b ts id) = true
  · simp [treeRemove, hf]
  · simp [treeRemove, hf, hk]

theorem deleteDirectById_plaintext {a b : Did} {ts : ℤ} {id' : String} (hid : id' ≠ id) :
    (s.deleteDirectById f a b ts id').2.plaintext[id]? = s.plaintext[id]? := by
  unfold deleteDirectById
  dsimp only
  split
  · rfl
  · dsimp only
    rw [get_treeRemove, if_neg fun h => hid h.1]

theorem deleteDirectById_some {a b : Did} {ts : ℤ} {id' : String} {m : DirectMessage}
    (h : (s.deleteDirectById f a b ts id').2.directMessages[k]? = some m) : s.directMessages[k]? = some m := by
  unfold deleteDirectById at h
  dsimp only at h
  split at h
  · exact h
  · rename_i t heq
    have ht : (treeRemove f "direct_messages" (directKey a b ts id') s.directMessages).2 = t := by rw [heq]
    have hm : t[k]? = some m := h
    rw [← ht] at hm
    exact get_treeRemove_some hm

theorem deleteDirectById_group {a b : Did} {ts : ℤ} :
    (s.deleteDirectById f a b ts id).2.groupMessages = s.groupMessages ∧
      (s.deleteDirectById f a b ts id).2.groupPlaintext = s.groupPlaintext := by
  unfold deleteDirectById
  dsimp only
  split
  · exact ⟨rfl, rfl⟩
  · exact ⟨rfl, rfl⟩

theorem deleteDirectConversation_some {d d' : Did} {m : DirectMessage}
    (h : (s.deleteDirectConversation f d d').2.directMessages[k]? = some m) : s.directMessages[k]? = some m := by
  have hdirect : (s.deleteDirectConversation f d d').2.directMessages = (treeRemoveAll f "direct_messages"
      ((scanPrefix (conversationId d d' ++ ":") s.directMessages).map (·.1)) s.directMessages).2 := by
    unfold deleteDirectConversation
    dsimp only
    split
    · rename_i heq
      rw [heq]
    · rename_i heq
      rw [heq]
  rw [hdirect] at h
  exact get_treeRemoveAll_some h

theorem deleteDirectConversation_group {d d' : Did} :
    (s.deleteDirectConversation f d d').2.groupMessages = s.groupMessages := by
  unfold deleteDirectConversation
  dsimp only
  split
  · rfl
  · rfl

end LocalMessageStorage

open LocalMessageStorage

/-- A write that leaves the direct message under `k` and the content under `id` as they are. -/
def StoreWrite.SparesDirect (k id : String) : StoreWrite → Prop
  | .noDirect a b ts id' => directKey a b ts id' ≠ k ∧ id' ≠ id
  | _ => True

/-- The same of a group message. -/
def StoreWrite.SparesGroup (k id : String) : StoreWrite → Prop
  | .group m => m.key ≠ k
  | .groupPlaintext id' _ => id' ≠ id
  | .noGroupMessages _ => False
  | _ => True

namespace LocalMessageStorage
variable {s : LocalMessageStorage} {f : Faults} {k id : String} {w : StoreWrite}

theorem updateMemberRole_history {g : String} {d : Did} {r : GroupRole} :
    (s.updateMemberRole f g d r).2.directMessages = s.directMessages ∧
      (s.updateMemberRole f g d r).2.plaintext = s.plaintext ∧
      (s.updateMemberRole f g d r).2.groupMessages = s.groupMessages ∧
      (s.updateMemberRole f g d r).2.groupPlaintext = s.groupPlaintext := by
  unfold updateMemberRole
  split
  · exact ⟨rfl, rfl, rfl, rfl⟩
  · split
    · exact ⟨rfl, rfl, rfl, rfl⟩
    · exact ⟨rfl, rfl, rfl, rfl⟩

theorem apply_direct (h : w.SparesDirect k id) : (s.apply f w).directMessages[k]? = s.directMessages[k]? ∧
    (s.apply f w).plaintext[id]? = s.plaintext[id]? := by
  cases w with
  | noDirect a b ts id' => exact ⟨deleteDirectById_direct h.1, deleteDirectById_plaintext h.2⟩
  | noGroupMessages g =>
    simp only [LocalMessageStorage.apply]
    rw [deleteGroupMessages_direct.1, deleteGroupMessages_direct.2]
    exact ⟨rfl, rfl⟩
  | role g d r =>
    simp only [LocalMessageStorage.apply]
    rw [updateMemberRole_history.1, updateMemberRole_history.2.1]
    exact ⟨rfl, rfl⟩
  | _ => exact ⟨rfl, rfl⟩

theorem apply_group (h : w.SparesGroup k id) : (s.apply f w).groupMessages[k]? = s.groupMessages[k]? ∧
    (s.apply f w).groupPlaintext[id]? = s.groupPlaintext[id]? := by
  cases w with
  | group m =>
    refine ⟨?_, rfl⟩
    simp only [LocalMessageStorage.apply, storeGroup, get_treeInsert]
    exact if_neg fun hif => h hif.1
  | groupPlaintext id' c =>
    refine ⟨rfl, ?_⟩
    simp only [LocalMessageStorage.apply, storeGroupPlaintext, get_treeInsert]
    exact if_neg fun hif => h hif.1
  | noGroupMessages g => exact h.elim
  | noDirect a b ts id' =>
    simp only [LocalMessageStorage.apply]
    rw [deleteDirectById_group.1, deleteDirectById_group.2]
    exact ⟨rfl, rfl⟩
  | role g d r =>
    simp only [LocalMessageStorage.apply]
    rw [updateMemberRole_history.2.2.1, updateMemberRole_history.2.2.2]
    exact ⟨rfl, rfl⟩
  | _ => exact ⟨rfl, rfl⟩

theorem Filed.apply (h : s.Filed) (f : Faults) (w : StoreWrite) : (s.apply f w).Filed := by
  cases w with
  | group m =>
    refine ⟨h.direct, fun k x hx => ?_⟩
    rcases get_treeInsert_some hx with ⟨hk, rfl⟩ | hold
    · exact hk
    · exact h.group k x hold
  | noGroupMessages g =>
    refine h.sub (fun k x hx => ?_) fun k x hx => ?_
    · simp only [LocalMessageStorage.apply] at hx
      rwa [deleteGroupMessages_direct.1] at hx
    · simp only [LocalMessageStorage.apply] at hx
      rw [deleteGroupMessages_groupMessages] at hx
      exact get_treeRemoveAll_some hx
  | noDirect a b ts id' =>
    refine h.sub (fun k x hx => deleteDirectById_some hx) fun k x hx => ?_
    simp only [LocalMessageStorage.apply] at hx
    rwa [deleteDirectById_group.1] at hx
  | role g d r =>
    refine h.sub (fun k x hx => ?_) fun k x hx => ?_
    · simp only [LocalMessageStorage.apply] at hx
      rwa [updateMemberRole_history.1] at hx
    · simp only [LocalMessageStorage.apply] at hx
      rwa [updateMemberRole_history.2.2.1] at hx
  | _ => exact ⟨h.direct, h.group⟩

end LocalMessageStorage

namespace Node
variable {M : OpenMls} {n n' : Node M} {W : Wire} {env : Env} {A : StoreWrite → Prop} {k : String}

theorem Acts.direct (h : Acts A n n') (k id : String) (hA : ∀ w, A w → w.SparesDirect k id) :
    n'.storage.directMessages[k]? = n.storage.directMessages[k]? ∧
      n'.storage.plaintext[id]? = n.storage.plaintext[id]? :=
  h.invariant (P := fun s => s.directMessages[k]? = n.storage.directMessages[k]? ∧
    s.plaintext[id]? = n.storage.plaintext[id]?)
    (fun _ _ w hw hs => ⟨(apply_direct (hA w hw)).1.trans hs.1, (apply_direct (hA w hw)).2.trans hs.2⟩) ⟨rfl, rfl⟩

theorem Acts.group (h : Acts A n n') (k id : String) (hA : ∀ w, A w → w.SparesGroup k id) :
    n'.storage.groupMessages[k]? = n.storage.groupMessages[k]? ∧
      n'.storage.groupPlaintext[id]? = n.storage.groupPlaintext[id]? :=
  h.invariant (P := fun s => s.groupMessages[k]? = n.storage.groupMessages[k]? ∧
    s.groupPlaintext[id]? = n.storage.groupPlaintext[id]?)
    (fun _ _ w hw hs => ⟨(apply_group (hA w hw)).1.trans hs.1, (apply_group (hA w hw)).2.trans hs.2⟩) ⟨rfl, rfl⟩

theorem Acts.filed (h : Acts A n n') (hf : n.storage.Filed) : n'.storage.Filed :=
  h.invariant (fun _ f w _ hs => hs.apply f w) hf

/-- When a group goes, its messages go. -/
theorem Acts.purged {g : String} {x : GroupMessage} (h : Acts (PurgeWrite g) n n')
    (hk : ¬ Text.HasPrefix (g ++ ":") k) (hx : n.storage.groupMessages[k]? = some x) :
    n'.storage.groupMessages[k]? = some x ∧
      ((∀ (k' : String) y, n.storage.groupMessages[k']? = some y → Text.HasPrefix (g ++ ":") k' →
          afterLastColon k' ≠ some x.id) →
        n'.storage.groupPlaintext[x.id]? = n.storage.groupPlaintext[x.id]?) := by
  refine ⟨?_, fun hid => ?_⟩
  · refine h.invariant (P := fun s => s.groupMessages[k]? = some x) ?_ hx
    intro s f w hw hs
    rcases hw with rfl | rfl | ⟨_, rfl⟩ | rfl
    · exact (deleteGroupMessages_spares hk).trans hs
    · exact hs
    · exact hs
    · exact hs
  · refine (h.invariant (P := fun s => (∀ (k' : String) y, s.groupMessages[k']? = some y →
      Text.HasPrefix (g ++ ":") k' → afterLastColon k' ≠ some x.id) ∧
      s.groupPlaintext[x.id]? = n.storage.groupPlaintext[x.id]?) ?_ ⟨hid, rfl⟩).2
    intro s f w hw hs
    rcases hw with rfl | rfl | ⟨_, rfl⟩ | rfl
    · refine ⟨fun k' y hy hp => ?_, (deleteGroupMessages_cached hs.1).trans hs.2⟩
      simp only [LocalMessageStorage.apply] at hy
      rw [deleteGroupMessages_groupMessages] at hy
      exact hs.1 k' y (get_treeRemoveAll_some hy) hp
    · exact hs
    · exact hs
    · exact hs

end Node
end Variance
