import Mathlib.Data.List.Nodup
import Mathlib.Data.List.Perm.Basic
import Mathlib.Data.Multiset.ZeroCons
import Variance.Spec.Storage

/-! What a write does to a tree, whether or not it fails, and the two keying facts the
stores rest on: an outbound invite lies under the key of its own group and invitee, group metadata under
its own id. -/

namespace Variance

/-- The entries of a map, put into an empty one in any order, make it again. -/
theorem foldl_insert_perm {α β : Type} [Ord α] [Std.TransOrd α] [Std.LawfulEqOrd α] {t : Std.ExtTreeMap α β}
    {es : List (α × β)} (h : es.Perm t.toList) : es.foldl (fun t e => t.insert e.1 e.2) ∅ = t := by
  rw [← Std.ExtTreeMap.insertMany_list_eq_foldl, ← Std.ExtTreeMap.ofList_eq_insertMany_empty]
  have hmem (k : α) (v : β) : (k, v) ∈ es ↔ t[k]? = some v :=
    h.mem_iff.trans Std.ExtTreeMap.mem_toList_iff_getElem?_eq_some
  have hdistinct : es.Pairwise fun a b => ¬ compare a.1 b.1 = .eq :=
    (h.pairwise_iff fun hne heq => hne (Std.OrientedCmp.eq_symm heq)).2 Std.ExtTreeMap.distinct_keys_toList
  refine Std.ExtTreeMap.ext_getElem? fun k => ?_
  cases ht : t[k]? with
  | some v => exact Std.ExtTreeMap.getElem?_ofList_of_mem Std.ReflCmp.compare_self hdistinct ((hmem k v).2 ht)
  | none =>
    have hout (v : β) : (k, v) ∉ es := fun hv => by simp [(hmem k v).1 hv] at ht
    classical
    exact Std.ExtTreeMap.getElem?_ofList_of_contains_eq_false (by simpa using hout)

section Trees
variable {β : Type} {f : Faults} {tree key k : String} {v w : β} {t : SledTree β}

theorem get_treeInsert :
    (treeInsert f tree key v t).2[k]? = if key = k ∧ f tree key = false then some v else t[k]? := by
  unfold treeInsert
  by_cases hf : f tree key = true <;> simp [hf]

theorem get_treeRemove :
    (treeRemove f tree key t).2[k]? = if key = k ∧ f tree key = false then none else t[k]? := by
  unfold treeRemove
  by_cases hf : f tree key = true <;> simp [hf]

theorem treeInsert_ok (h : f tree key = false) : treeInsert f tree key v t = (.ok (), t.insert key v) := by
  simp [treeInsert, h]

theorem treeInsert_error (h : f tree key = true) : treeInsert f tree key v t = (.error .storage, t) := by
  simp [treeInsert, h]

theorem treeRemove_ok (h : f tree key = false) : treeRemove f tree key t = (.ok (), t.erase key) := by
  simp [treeRemove, h]

theorem get_erase_some (h : (t.erase key)[k]? = some w) : t[k]? = some w := by
  rw [get_erase] at h
  split_ifs at h
  exact h

theorem get_treeInsert_some (h : (treeInsert f tree key v t).2[k]? = some w) :
    (key = k ∧ v = w) ∨ t[k]? = some w := by
  rw [get_treeInsert] at h
  split_ifs at h with hk
  · exact Or.inl ⟨hk.1, by simpa using h⟩
  · exact Or.inr h

theorem get_treeRemove_some (h : (treeRemove f tree key t).2[k]? = some w) : t[k]? = some w := by
  rw [get_treeRemove] at h
  split_ifs at h
  exact h

/-- A bulk removal never adds: what is left was there, and what is gone was listed. -/
theorem get_treeRemoveAll_some {keys : List String}
    (h : (treeRemoveAll f tree keys t).2[k]? = some w) : t[k]? = some w := by
  induction keys generalizing t with
  | nil => exact h
  | cons a keys ih =>
    unfold treeRemoveAll at h
    split_ifs at h
    · exact h
    · exact get_erase_some (ih h)

theorem get_treeRemoveAll_of_notMem {keys : List String} (hk : k ∉ keys) :
    (treeRemoveAll f tree keys t).2[k]? = t[k]? := by
  induction keys generalizing t with
  | nil => rfl
  | cons a keys ih =>
    obtain ⟨hka, hk⟩ : k ≠ a ∧ k ∉ keys := by simpa using hk
    unfold treeRemoveAll
    split_ifs
    · rfl
    · rw [ih hk, get_erase, if_neg (Ne.symm hka)]

theorem get_treeRemoveAll_of_mem {keys : List String} (hf : ∀ a ∈ keys, f tree a = false) (hk : k ∈ keys) :
    (treeRemoveAll f tree keys t).2[k]? = none := by
  induction keys generalizing t with
  | nil => simp at hk
  | cons a keys ih =>
    unfold treeRemoveAll
    rw [if_neg (by simp [hf a (by simp)])]
    by_cases ha : k ∈ keys
    · exact ih (fun b hb => hf b (by simp [hb])) ha
    · obtain rfl : k = a := by simpa [ha] using hk
      rw [get_treeRemoveAll_of_notMem ha]
      simp

/-- Exactly what is listed before the first failure goes. -/
theorem get_treeRemoveAll {keys : List String} : (treeRemoveAll f tree keys t).2[k]? =
    if k ∈ keys.takeWhile (fun a => f tree a = false) then none else t[k]? := by
  induction keys generalizing t with
  | nil => simp [treeRemoveAll]
  | cons a keys ih =>
    unfold treeRemoveAll
    by_cases ha : f tree a = true
    · rw [if_pos ha, List.takeWhile_cons_of_neg (by simp [ha]), if_neg List.not_mem_nil]
    · rw [if_neg ha, List.takeWhile_cons_of_pos (by simpa using ha), ih, get_erase]
      by_cases hk : k = a
      · subst hk
        simp
      · simp [hk, Ne.symm hk]

theorem treeRemoveAll_ok_iff {keys : List String} :
    (treeRemoveAll f tree keys t).1 = .ok () ↔ ∀ a ∈ keys, f tree a = false := by
  induction keys generalizing t with
  | nil => simp [treeRemoveAll]
  | cons a keys ih =>
    unfold treeRemoveAll
    by_cases ha : f tree a = true
    · simp [ha]
    · rw [if_neg ha, ih]
      simp [ha]

/-- One by one, each removal of its own. -/
theorem get_removed {ids : List String} {i : String} :
    (ids.foldl (fun p id => (treeRemove f tree id p).2) t)[i]? =
      if i ∈ ids ∧ f tree i = false then none else t[i]? := by
  induction ids generalizing t with
  | nil => simp
  | cons a ids ih =>
    rw [List.foldl_cons, ih, get_treeRemove]
    by_cases hf : f tree i = false
    · by_cases ha : a = i
      · subst ha
        simp [hf]
      · simp [hf, ha, Ne.symm ha]
    · have hne : ¬ (a = i ∧ f tree a = false) := by
        rintro ⟨rfl, h⟩
        exact hf h
      rw [if_neg (fun h => hf h.2), if_neg hne, if_neg (fun h => hf h.2)]

theorem mem_scanPrefix {pre : String} {e : String × β} :
    e ∈ scanPrefix pre t ↔ t[e.1]? = some e.2 ∧ Text.HasPrefix pre e.1 := by
  simp [scanPrefix, mem_iter]

theorem keys_sorted (t : SledTree β) : t.toList.Pairwise fun a b => a.1 < b.1 :=
  Std.ExtTreeMap.ordered_keys_toList.imp fun h => compare_lt_iff_lt.1 h

theorem nodup_keys (t : SledTree β) : (t.toList.map (·.1)).Nodup :=
  List.pairwise_map.2 (List.Pairwise.imp (fun {_ _} h => ne_of_lt h) (keys_sorted t))

theorem nodup_scanPrefix (pre : String) (t : SledTree β) : (scanPrefix pre t).Nodup :=
  (List.Nodup.of_map _ (nodup_keys t)).filter _

/-- An entry that is inserted joins the scan of its prefix, and whatever had its key is gone. -/
theorem scanPrefix_insert_perm {pre : String} (h : Text.HasPrefix pre key) : (scanPrefix pre (t.insert key v)).Perm
    ((key, v) :: (scanPrefix pre t).filter fun e => e.1 ≠ key) := by
  refine (List.perm_ext_iff_of_nodup (nodup_scanPrefix _ _) (List.nodup_cons.2
    ⟨by simp, (nodup_scanPrefix _ _).filter _⟩)).2 fun e => ?_
  rw [mem_scanPrefix, List.mem_cons, List.mem_filter, mem_scanPrefix, get_insert]
  obtain ⟨k, w⟩ := e
  by_cases hk : key = k
  · subst hk
    simp [h, eq_comm]
  · simp [hk, Ne.symm hk]

theorem scanPrefix_insert_of_not {pre : String} (h : ¬ Text.HasPrefix pre key) :
    scanPrefix pre (t.insert key v) = scanPrefix pre t := by
  have hperm : (scanPrefix pre (t.insert key v)).Perm (scanPrefix pre t) := by
    refine (List.perm_ext_iff_of_nodup (nodup_scanPrefix _ _) (nodup_scanPrefix _ _)).2 fun e => ?_
    rw [mem_scanPrefix, mem_scanPrefix, get_insert]
    refine and_congr_left fun hpre => ?_
    rw [if_neg]
    rintro rfl
    exact h hpre
  refine hperm.eq_of_pairwise (fun a b _ _ hab hba => (lt_asymm hab hba).elim) ((keys_sorted _).filter _)
    ((keys_sorted _).filter _)

/-- The last entry of a scan is that of the greatest key. -/
theorem getLast_scanPrefix_iff {pre : String} {e : String × β} : (scanPrefix pre t).getLast? = some e ↔
    e ∈ scanPrefix pre t ∧ ∀ e' ∈ scanPrefix pre t, e'.1 ≤ e.1 := by
  have hsorted : (scanPrefix pre t).Pairwise fun a b => a.1 < b.1 := (keys_sorted t).filter _
  constructor
  · intro h
    obtain ⟨init, hinit⟩ := List.getLast?_eq_some_iff.1 h
    refine ⟨List.mem_of_getLast? h, fun e' he' => ?_⟩
    rw [hinit, List.pairwise_append] at hsorted
    rw [hinit] at he'
    rcases List.mem_append.1 he' with hin | hlast
    · exact (hsorted.2.2 e' hin e (List.mem_singleton.2 rfl)).le
    · exact le_of_eq (by rw [List.mem_singleton.1 hlast])
  · rintro ⟨hmem, hle⟩
    cases hlast : (scanPrefix pre t).getLast? with
    | none =>
      rw [List.getLast?_eq_none_iff.1 hlast] at hmem
      cases hmem
    | some last =>
      obtain ⟨init, hinit⟩ := List.getLast?_eq_some_iff.1 hlast
      rw [hinit, List.pairwise_append] at hsorted
      rw [hinit] at hmem
      rcases List.mem_append.1 hmem with hin | heq
      · -- the last one would be both after it and not
        have hlt := hsorted.2.2 e hin last (List.mem_singleton.2 rfl)
        exact absurd hlt (not_lt.2 (hle last (List.mem_of_getLast? hlast)))
      · rw [List.mem_singleton.1 heq]

theorem insert_self_iff : t.insert key v = t ↔ t[key]? = some v := by
  constructor
  · intro h
    rw [← h]
    simp
  · intro h
    refine Std.ExtTreeMap.ext_getElem? fun k => ?_
    rw [get_insert]
    split_ifs with hk
    · rw [← hk, h]
    · rfl

/-- A write changes nothing just when it fails or its value is there already. -/
theorem treeInsert_self_iff : (treeInsert f tree key v t).2 = t ↔ f tree key = true ∨ t[key]? = some v := by
  cases hf : f tree key with
  | true => simp [treeInsert_error hf]
  | false => simp [treeInsert_ok hf, insert_self_iff]

theorem filter_scanPrefix_of_none {pre : String} (h : t[key]? = none) :
    (scanPrefix pre t).filter (fun e => e.1 ≠ key) = scanPrefix pre t := by
  refine List.filter_eq_self.2 fun e he => decide_eq_true ?_
  rintro rfl
  rw [(mem_scanPrefix.1 he).1] at h
  cases h

/-- In the place of another entry it counts for nothing, and otherwise for one. -/
theorem length_scanPrefix_insert {pre : String} (h : Text.HasPrefix pre key) :
    (scanPrefix pre (t.insert key v)).length = (scanPrefix pre t).length + if (t[key]?).isSome then 0 else 1 := by
  rw [(scanPrefix_insert_perm h).length_eq, List.length_cons]
  cases hkey : t[key]? with
  | none =>
    rw [filter_scanPrefix_of_none hkey]
    rfl
  | some w =>
    have hbefore := (scanPrefix_insert_perm (t := t) (v := w) h).length_eq
    rw [insert_self_iff.2 hkey, List.length_cons] at hbefore
    simp [hbefore]

/-- Its values change, unless the very same entry was there. -/
theorem scanPrefix_insert_ne {pre : String} (h : Text.HasPrefix pre key) (hne : t[key]? ≠ some v) :
    (scanPrefix pre (t.insert key v)).map (·.2) ≠ (scanPrefix pre t).map (·.2) := by
  intro heq
  have hperm := (scanPrefix_insert_perm (t := t) (v := v) h).map (·.2)
  rw [heq] at hperm
  cases hk : t[key]? with
  | none =>
    rw [filter_scanPrefix_of_none hk] at hperm
    have := hperm.length_eq
    simp at this
  | some w =>
    have hbefore := (scanPrefix_insert_perm (t := t) (v := w) h).map (·.2)
    rw [insert_self_iff.2 hk] at hbefore
    have hcons := Multiset.coe_eq_coe.2 (hperm.symm.trans hbefore)
    rw [List.map_cons, List.map_cons, ← Multiset.cons_coe, ← Multiset.cons_coe, Multiset.cons_inj_left] at hcons
    exact hne (by rw [hk]; exact congrArg some hcons.symm)

end Trees

namespace LocalMessageStorage

/-- Every record lies under the key that its own fields make. -/
structure Keyed (s : LocalMessageStorage) : Prop where
  invite : ∀ k (e : OutboundInvite), s.outboundInvites[k]? = some e →
    k = inviteKey e.invitation.groupId e.invitation.inviteeDid
  metadata : ∀ g (m : Group), s.groupMetadata[g]? = some m → m.id = g

variable {s : LocalMessageStorage} {f : Faults}

theorem Keyed.empty : Keyed .empty :=
  ⟨by simp [LocalMessageStorage.empty], by simp [LocalMessageStorage.empty]⟩

/-- Only the two trees matter. -/
theorem Keyed.congr {s' : LocalMessageStorage} (h : Keyed s)
    (hi : s'.outboundInvites = s.outboundInvites) (hm : s'.groupMetadata = s.groupMetadata) : Keyed s' :=
  ⟨by rw [hi]; exact h.invite, by rw [hm]; exact h.metadata⟩

theorem Keyed.storeOutboundInvite (h : Keyed s) {g : String} {d : Did} {i : GroupInvitation} {now : ℤ}
    (hg : i.groupId = g) (hd : i.inviteeDid = d) : Keyed (s.storeOutboundInvite f g d i now).2 := by
  refine ⟨fun k e hk => ?_, h.metadata⟩
  rcases get_treeInsert_some hk with ⟨rfl, rfl⟩ | hk
  · rw [hg, hd]
  · exact h.invite _ _ hk

theorem Keyed.deleteOutboundInvite (h : Keyed s) {g : String} {d : Did} :
    Keyed (s.deleteOutboundInvite f g d).2 :=
  ⟨fun _ _ hk => h.invite _ _ (get_treeRemove_some hk), h.metadata⟩

theorem Keyed.deleteAllOutboundInvitesForGroup (h : Keyed s) {g : String} :
    Keyed (s.deleteAllOutboundInvitesForGroup f g).2 :=
  ⟨fun _ _ hk => h.invite _ _ (get_treeRemoveAll_some hk), h.metadata⟩

theorem Keyed.storeGroupMetadata (h : Keyed s) {m : Group} : Keyed (s.storeGroupMetadata f m).2 := by
  refine ⟨h.invite, fun g m' hk => ?_⟩
  rcases get_treeInsert_some hk with ⟨rfl, rfl⟩ | hk
  · rfl
  · exact h.metadata _ _ hk

theorem Keyed.deleteGroupMetadata (h : Keyed s) {g : String} : Keyed (s.deleteGroupMetadata f g).2 :=
  ⟨h.invite, fun _ _ hk => h.metadata _ _ (get_treeRemove_some hk)⟩

theorem Keyed.updateMemberRole (h : Keyed s) {g : String} {d : Did} {r : GroupRole} :
    Keyed (s.updateMemberRole f g d r).2 := by
  unfold LocalMessageStorage.updateMemberRole
  cases hg : s.groupMetadata[g]? with
  | none => exact h
  | some group =>
    simp only
    split_ifs
    · refine ⟨h.invite, fun k m hk => ?_⟩
      rcases get_treeInsert_some hk with ⟨rfl, rfl⟩ | hk
      · exact h.metadata g group hg
      · exact h.metadata _ _ hk
    · exact h

theorem deleteGroupMessages_invites {g : String} :
    (s.deleteGroupMessages f g).2.outboundInvites = s.outboundInvites := by
  unfold LocalMessageStorage.deleteGroupMessages
  dsimp only
  split <;> rfl

theorem deleteGroupMessages_metadata {g : String} :
    (s.deleteGroupMessages f g).2.groupMetadata = s.groupMetadata := by
  unfold LocalMessageStorage.deleteGroupMessages
  dsimp only
  split <;> rfl

theorem deleteDirectById_invites {a b : Did} {ts : ℤ} {id : String} :
    (s.deleteDirectById f a b ts id).2.outboundInvites = s.outboundInvites := by
  unfold LocalMessageStorage.deleteDirectById
  dsimp only
  split <;> rfl

theorem deleteDirectById_metadata {a b : Did} {ts : ℤ} {id : String} :
    (s.deleteDirectById f a b ts id).2.groupMetadata = s.groupMetadata := by
  unfold LocalMessageStorage.deleteDirectById
  dsimp only
  split <;> rfl

end LocalMessageStorage

end Variance
