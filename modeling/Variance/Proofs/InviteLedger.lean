import Mathlib.Algebra.GroupWithZero.Nat
import Mathlib.Algebra.Order.BigOperators.Group.List
import Variance.Proofs.InviteOwnership
import Variance.Spec.InviteLedger

/-! What is stored under a text is found again under its two parts where the text comes apart there, and a scan finds
what has a key that begins so, whoever it belongs to. -/

namespace Variance

open LocalMessageStorage Overflow

variable {w : InviteLedger} {p q : InvitePair} {k groupId : String} {b : Build} {timeoutMs nowMs : Int64}

/-! A key -/

theorem splitInviteKey_eq_none_iff : splitInviteKey k = none ↔ ¬ Text.Occurs ":did:" k := by
  unfold splitInviteKey
  rw [Option.map_eq_none_iff, Text.cutString_eq_none_iff]

theorem cut_of_splitInviteKey {x : String × Did} (h : splitInviteKey k = some x) :
    ∃ y, Text.cut ":did:".toList k.toList = some (x.1.toList, y) := by
  obtain ⟨⟨a, r⟩, hs, rfl⟩ := Option.map_eq_some_iff.1 h
  obtain ⟨⟨a', y⟩, hcut, heq⟩ := Option.map_eq_some_iff.1 hs
  obtain ⟨rfl, -⟩ := Prod.mk.inj heq
  exact ⟨y, by rw [hcut, String.toList_ofList]⟩

/-- What comes after the boundary is taken for a DID. -/
theorem did_of_splitInviteKey {x : String × Did} (h : splitInviteKey k = some x) : Text.HasPrefix "did:" x.2 := by
  obtain ⟨⟨a, r⟩, hc, rfl⟩ := Option.map_eq_some_iff.1 h
  obtain ⟨t, ht⟩ := (Text.cutString_append hc).2
  refine ⟨t, ?_⟩
  rw [← ht]
  exact String.toList_ofList.symm

theorem splitInviteKey_key {x : String × Did} (h : splitInviteKey k = some x) : k = (InvitePair.mk x.1 x.2).key :=
  Node.key_of_splitInviteKey h

theorem toList_key : p.key.toList = p.groupId.toList ++ ':' :: p.inviteeDid.toList := by
  simp [InvitePair.key, inviteKey]

/-- A boundary that begins within the group id lies within it and its colon. -/
theorem occurs_of_early {a c : List Char} (hg : p.groupId.toList = a ++ c) (hne : c ≠ [])
    (hp : ":did:".toList <+: c ++ ':' :: p.inviteeDid.toList) : Text.Occurs ":did:" (p.groupId ++ ":") := by
  have hshort : ":did:".toList <+: c ++ [':'] := by
    have hc : c ++ ':' :: p.inviteeDid.toList = (c ++ [':']) ++ p.inviteeDid.toList := by simp
    rw [hc] at hp
    by_cases hlen : 4 ≤ c.length
    · exact List.prefix_of_prefix_length_le hp (List.prefix_append _ _) (by simp; omega)
    · -- else the colon would be one of its letters
      have hpre : c ++ [':'] <+: ":did:".toList :=
        List.prefix_of_prefix_length_le (List.prefix_append _ _) hp (by simp; omega)
      rcases c with _ | ⟨x, _ | ⟨y, _ | ⟨z, _ | ⟨_, c⟩⟩⟩⟩
      · exact (hne rfl).elim
      · simp at hpre
      · simp at hpre
      · simp at hpre
      · simp at hlen
  unfold Text.Occurs
  rw [String.toList_append, hg, List.append_assoc]
  exact hshort.isInfix.trans (List.suffix_append _ _).isInfix

/-- Where its key comes apart. -/
theorem splits_iff : p.Splits ↔ splitInviteKey p.key = some (p.groupId, p.inviteeDid) := by
  constructor
  · rintro ⟨⟨r, hr⟩, hno⟩
    have hp : ":did:".toList <+: ':' :: p.inviteeDid.toList := ⟨r, by rw [← hr]; rfl⟩
    have hcut : Text.cut ":did:".toList (p.groupId.toList ++ ':' :: p.inviteeDid.toList) =
        some (p.groupId.toList, ':' :: p.inviteeDid.toList) :=
      Text.cut_append_of_no_earlier hp fun _ _ hg hne hpre => hno (occurs_of_early hg hne hpre)
    rw [splitInviteKey, Text.cutString, toList_key, hcut]
    simp
  · intro h
    obtain ⟨y, hcut⟩ := cut_of_splitInviteKey h
    obtain ⟨hkey, -⟩ := Text.cut_append hcut
    rw [toList_key] at hkey
    obtain rfl : ':' :: p.inviteeDid.toList = y := List.append_cancel_left hkey
    refine ⟨did_of_splitInviteKey h, ?_⟩
    rintro ⟨a, r, har⟩
    rw [String.toList_append, List.append_assoc, List.append_eq_append_iff] at har
    rcases har with ⟨c, hc, hrest⟩ | ⟨c, -, hrest⟩
    · have hne : c ≠ [] := by
        rintro rfl
        simp at hrest
      refine Text.no_earlier_of_cut hcut a c hc hne ⟨r ++ p.inviteeDid.toList, ?_⟩
      rw [← List.append_assoc, hrest, List.append_assoc]
      rfl
    · have hlen := congrArg List.length hrest
      simp at hlen
      omega

/-- A DID moves the boundary forward if it moves it at all. -/
theorem splitInviteKey_did (hd : Text.HasPrefix "did:" p.inviteeDid) : ∃ x, splitInviteKey p.key = some x ∧
    p.inviteeDid.toList.length ≤ x.2.toList.length ∧
    (p.inviteeDid.toList.length = x.2.toList.length → x = (p.groupId, p.inviteeDid)) := by
  obtain ⟨r, hr⟩ := hd
  have hp : ":did:".toList <+: ':' :: p.inviteeDid.toList := ⟨r, by rw [← hr]; rfl⟩
  cases hs : splitInviteKey p.key with
  | none =>
    refine (splitInviteKey_eq_none_iff.1 hs ?_).elim
    unfold Text.Occurs
    rw [toList_key]
    exact hp.isInfix.trans (List.suffix_append _ _).isInfix
  | some x =>
    have hkey := congrArg String.toList (splitInviteKey_key hs)
    rw [toList_key, toList_key, List.append_eq_append_iff] at hkey
    have hsame : ∀ c, p.groupId.toList = x.1.toList ++ c → ':' :: x.2.toList = c ++ ':' :: p.inviteeDid.toList →
        p.inviteeDid.toList.length ≤ x.2.toList.length ∧
        (p.inviteeDid.toList.length = x.2.toList.length → x = (p.groupId, p.inviteeDid)) := by
      intro c hg hrest
      have hlen := congrArg List.length hrest
      simp only [List.length_cons, List.length_append] at hlen
      refine ⟨by omega, fun heq => ?_⟩
      obtain rfl : c = [] := List.length_eq_zero_iff.1 (by omega)
      rw [List.append_nil] at hg
      exact Prod.ext (String.toList_inj.1 hg).symm (String.toList_inj.1 (List.cons.inj hrest).2)
    refine ⟨x, rfl, ?_⟩
    rcases hkey with ⟨c, hx, hrest⟩ | ⟨c, hg, hrest⟩
    · by_cases hc : c = []
      · subst hc
        exact hsame [] (by simp [hx]) (by simpa using hrest.symm)
      · -- the cut would have been before
        obtain ⟨y, hcut⟩ := cut_of_splitInviteKey hs
        obtain ⟨hall, -⟩ := Text.cut_append hcut
        rw [toList_key, hx, List.append_assoc] at hall
        refine (Text.no_earlier_of_cut hcut _ c hx hc ?_).elim
        rw [← List.append_cancel_left hall]
        exact hp
    · exact hsame c hg hrest

theorem hasPrefix_key : Text.HasPrefix (p.groupId ++ ":") p.key := Text.hasPrefix_append _ _

namespace InviteLedger

/-! The tree -/

/-- One for one: every entry is of something stored, and no two have an entry between them. -/
theorem holds_iff : w.Holds ↔
    (∀ (k : String) e, w.storage.outboundInvites[k]? = some e ↔ ∃ p, w.stored.get p = some e ∧ p.key = k) ∧
    ∀ p q e e', w.stored.get p = some e → w.stored.get q = some e' → p.key = q.key → p = q := by
  constructor
  · intro h
    constructor
    · intro k e
      have hmem := h.mem_iff (a := (k, e))
      rw [mem_iter, List.mem_map] at hmem
      rw [hmem]
      constructor
      · rintro ⟨x, hx, heq⟩
        cases heq
        exact ⟨x.1, InsertionMap.get_eq_some_iff.2 hx, rfl⟩
      · rintro ⟨p, hp, rfl⟩
        exact ⟨(p, e), InsertionMap.get_eq_some_iff.1 hp, rfl⟩
    · intro p q e e' hp hq hkey
      have hnodup := (h.map (·.1)).nodup_iff.1 (nodup_keys _)
      rw [List.map_map] at hnodup
      have hsame := List.inj_on_of_nodup_map hnodup (InsertionMap.get_eq_some_iff.1 hp)
        (InsertionMap.get_eq_some_iff.1 hq) hkey
      exact congrArg Prod.fst hsame
  · rintro ⟨hall, hinj⟩
    have hnodup : (w.stored.entries.map fun e => (e.1.key, e.2)).Nodup := by
      refine List.Nodup.map_on ?_ (List.Nodup.of_map _ w.stored.nodup)
      intro x hx y hy heq
      have hpair := hinj x.1 y.1 x.2 y.2 (InsertionMap.get_eq_some_iff.2 hx) (InsertionMap.get_eq_some_iff.2 hy)
        (Prod.mk.inj heq).1
      exact Prod.ext hpair (Prod.mk.inj heq).2
    refine (List.perm_ext_iff_of_nodup (List.Nodup.of_map _ (nodup_keys _)) hnodup).2 fun x => ?_
    rw [mem_iter, hall, List.mem_map]
    constructor
    · rintro ⟨p, hp, hkey⟩
      exact ⟨(p, x.2), InsertionMap.get_eq_some_iff.1 hp, Prod.ext hkey rfl⟩
    · rintro ⟨e, he, rfl⟩
      exact ⟨e.1, InsertionMap.get_eq_some_iff.2 he, rfl⟩

theorem Holds.find (h : w.Holds) {e : OutboundInvite} :
    w.storage.outboundInvites[k]? = some e ↔ ∃ p, w.stored.get p = some e ∧ p.key = k := (holds_iff.1 h).1 k e

theorem Holds.inj (h : w.Holds) {x y : InvitePair × OutboundInvite} (hx : x ∈ w.stored.entries)
    (hy : y ∈ w.stored.entries) (hkey : x.1.key = y.1.key) : x = y := by
  have hx' := InsertionMap.get_eq_some_iff.2 hx
  have hy' := InsertionMap.get_eq_some_iff.2 hy
  have hpair := (holds_iff.1 h).2 _ _ _ _ hx' hy' hkey
  rw [hpair, hy'] at hx'
  exact Prod.ext hpair (Option.some.inj hx').symm

/-! Writes -/

variable {f : Faults} {invitation : GroupInvitation} {createdAtMs : Int64}

theorem step_store_ok (hf : f "outbound_invites" p.key = false) : w.step (.store f p invitation createdAtMs) =
    ⟨{ w.storage with outboundInvites := w.storage.outboundInvites.insert p.key ⟨invitation, createdAtMs.toInt⟩ },
      w.stored.set p ⟨invitation, createdAtMs.toInt⟩⟩ := by
  have hf' : f "outbound_invites" (inviteKey p.groupId p.inviteeDid) = false := hf
  simp only [step, storeOutboundInvite, treeInsert_ok hf']
  rfl

theorem step_store_error (hf : f "outbound_invites" p.key = true) : w.step (.store f p invitation createdAtMs) = w := by
  have hf' : f "outbound_invites" (inviteKey p.groupId p.inviteeDid) = true := hf
  simp only [step, storeOutboundInvite, treeInsert_error hf']

theorem step_delete_ok (hf : f "outbound_invites" p.key = false) : w.step (.delete f p) =
    ⟨{ w.storage with outboundInvites := w.storage.outboundInvites.erase p.key }, w.stored.delete p⟩ := by
  have hf' : f "outbound_invites" (inviteKey p.groupId p.inviteeDid) = false := hf
  simp only [step, deleteOutboundInvite, treeRemove_ok hf']
  rfl

theorem step_delete_error (hf : f "outbound_invites" p.key = true) : w.step (.delete f p) = w := by
  have hf' : f "outbound_invites" (inviteKey p.groupId p.inviteeDid) = true := hf
  simp only [step, deleteOutboundInvite, treeRemove, if_pos hf']

theorem holds_store_iff (h : w.Holds) :
    (w.step (.store f p invitation createdAtMs)).Holds ↔ w.Careful (.store f p invitation createdAtMs) := by
  cases hf : f "outbound_invites" p.key with
  | true =>
    rw [step_store_error hf]
    exact iff_of_true h fun hok => by simp [hf] at hok
  | false =>
    rw [step_store_ok hf]
    constructor
    · intro h' _ x hx hkey
      by_contra hne
      have hstored : (w.stored.set p ⟨invitation, createdAtMs.toInt⟩).get x.1 = some x.2 := by
        rw [InsertionMap.get_set, if_neg (Ne.symm hne)]
        exact InsertionMap.get_eq_some_iff.2 hx
      have hnew : (w.stored.set p ⟨invitation, createdAtMs.toInt⟩).get p = some ⟨invitation, createdAtMs.toInt⟩ := by
        rw [InsertionMap.get_set, if_pos rfl]
      exact hne ((holds_iff.1 h').2 _ _ _ _ hstored hnew hkey)
    · intro hc
      have hown : ∀ q e, w.stored.get q = some e → q.key = p.key → q = p := fun q e hq =>
        hc hf (q, e) (InsertionMap.get_eq_some_iff.1 hq)
      refine holds_iff.2 ⟨fun k e => ?_, fun q q' e e' hq hq' hkey => ?_⟩
      · rw [get_insert]
        by_cases hk : p.key = k
        · rw [if_pos hk]
          constructor
          · intro he
            exact ⟨p, by rw [InsertionMap.get_set, if_pos rfl, he], hk⟩
          · rintro ⟨q, hq, hqk⟩
            rw [InsertionMap.get_set] at hq
            split_ifs at hq with hpq
            · exact hq
            · exact (hpq (hown q e hq (hqk.trans hk.symm)).symm).elim
        · rw [if_neg hk, h.find]
          constructor
          · rintro ⟨q, hq, hqk⟩
            refine ⟨q, ?_, hqk⟩
            rw [InsertionMap.get_set, if_neg]
            · exact hq
            · rintro rfl
              exact hk hqk
          · rintro ⟨q, hq, hqk⟩
            rw [InsertionMap.get_set] at hq
            split_ifs at hq with hpq
            · exact (hk (hpq ▸ hqk)).elim
            · exact ⟨q, hq, hqk⟩
      · rw [InsertionMap.get_set] at hq hq'
        split_ifs at hq hq' with hpq hpq' hpq'
        · exact hpq.symm.trans hpq'
        · rw [← hpq] at hkey ⊢
          exact (hown q' e' hq' hkey.symm).symm
        · rw [← hpq'] at hkey ⊢
          exact hown q e hq hkey
        · exact (holds_iff.1 h).2 _ _ _ _ hq hq' hkey

/-- Where what stays is part of what there was, its entries are still its own. -/
theorem Holds.of_le {w' : InviteLedger} (h : w.Holds) (hle : ∀ q e, w'.stored.get q = some e → w.stored.get q = some e)
    (hfind : ∀ (k : String) e, w'.storage.outboundInvites[k]? = some e ↔ ∃ q, w'.stored.get q = some e ∧ q.key = k) :
    w'.Holds :=
  holds_iff.2 ⟨hfind, fun q q' e e' hq hq' => (holds_iff.1 h).2 q q' e e' (hle q e hq) (hle q' e' hq')⟩

theorem holds_delete_iff (h : w.Holds) : (w.step (.delete f p)).Holds ↔ w.Careful (.delete f p) := by
  cases hf : f "outbound_invites" p.key with
  | true =>
    rw [step_delete_error hf]
    exact iff_of_true h fun hok => by simp [hf] at hok
  | false =>
    rw [step_delete_ok hf]
    constructor
    · intro h' _ x hx hkey
      by_contra hne
      have hstored : (w.stored.delete p).get x.1 = some x.2 := by
        rw [InsertionMap.get_delete, if_neg (Ne.symm hne)]
        exact InsertionMap.get_eq_some_iff.2 hx
      have hfound := h'.find.2 ⟨x.1, hstored, hkey⟩
      rw [get_erase, if_pos rfl] at hfound
      cases hfound
    · intro hc
      refine h.of_le (fun q e hq => ?_) fun k e => ?_
      · rw [InsertionMap.get_delete] at hq
        split_ifs at hq
        exact hq
      · rw [get_erase]
        by_cases hk : p.key = k
        · rw [if_pos hk]
          refine iff_of_false (by simp) ?_
          rintro ⟨q, hq, hqk⟩
          rw [InsertionMap.get_delete] at hq
          split_ifs at hq with hpq
          exact hpq (hc hf (q, e) (InsertionMap.get_eq_some_iff.1 hq) (hqk.trans hk.symm)).symm
        · rw [if_neg hk, h.find]
          refine exists_congr fun q => and_congr_left fun hqk => ?_
          rw [InsertionMap.get_delete, if_neg]
          rintro rfl
          exact hk hqk

/-- The keys that the deletion of a group goes through. -/
theorem Holds.mem_scanned (h : w.Holds) : k ∈ (scanPrefix (groupId ++ ":") w.storage.outboundInvites).map (·.1) ↔
    ∃ x ∈ w.stored.entries, x.1.key = k ∧ Text.HasPrefix (groupId ++ ":") k := by
  rw [List.mem_map]
  constructor
  · rintro ⟨e, he, rfl⟩
    obtain ⟨hfind, hpre⟩ := mem_scanPrefix.1 he
    obtain ⟨q, hq, hkey⟩ := h.find.1 hfind
    exact ⟨(q, e.2), InsertionMap.get_eq_some_iff.1 hq, hkey, hpre⟩
  · rintro ⟨x, hx, rfl, hpre⟩
    refine ⟨(x.1.key, x.2), mem_scanPrefix.2 ⟨?_, hpre⟩, rfl⟩
    exact h.find.2 ⟨x.1, InsertionMap.get_eq_some_iff.2 hx, rfl⟩

/-- What is left of the tree, and whether all of that went. -/
def swept (w : InviteLedger) (f : Faults) (groupId : String) : Except MsgError Unit × SledTree OutboundInvite :=
  treeRemoveAll f "outbound_invites" ((scanPrefix (groupId ++ ":") w.storage.outboundInvites).map (·.1))
    w.storage.outboundInvites

theorem step_deleteAll_ok (hr : (w.swept f groupId).1 = .ok ()) : w.step (.deleteAll f groupId) =
    ⟨{ w.storage with outboundInvites := (w.swept f groupId).2 },
      w.stored.filterMap fun p e => if p.groupId ≠ groupId then some e else none⟩ := by
  unfold swept at hr ⊢
  simp only [step, deleteAllOutboundInvitesForGroup, hr]

theorem step_deleteAll_error {e : MsgError} (hr : (w.swept f groupId).1 = .error e) : w.step (.deleteAll f groupId) =
    ⟨{ w.storage with outboundInvites := (w.swept f groupId).2 },
      w.stored.filterMap fun p e => if (w.swept f groupId).2.contains p.key then some e else none⟩ := by
  unfold swept at hr ⊢
  simp only [step, deleteAllOutboundInvitesForGroup, hr]

/-- The deletion goes through when none of the removals fails. -/
theorem Holds.swept_ok_iff (h : w.Holds) : (w.swept f groupId).1 = .ok () ↔ ∀ e ∈ w.stored.entries,
    Text.HasPrefix (groupId ++ ":") e.1.key → f "outbound_invites" e.1.key = false := by
  unfold swept
  rw [treeRemoveAll_ok_iff]
  constructor
  · intro hall e he hpre
    exact hall _ (h.mem_scanned.2 ⟨e, he, rfl, hpre⟩)
  · intro hall k hk
    obtain ⟨e, he, rfl, hpre⟩ := h.mem_scanned.1 hk
    exact hall e he hpre

theorem Holds.find_swept (h : w.Holds) (hr : (w.swept f groupId).1 = .ok ()) {e : OutboundInvite} :
    (w.swept f groupId).2[k]? = some e ↔
      w.storage.outboundInvites[k]? = some e ∧ ¬ Text.HasPrefix (groupId ++ ":") k := by
  have hf := treeRemoveAll_ok_iff.1 hr
  unfold swept
  by_cases hk : k ∈ (scanPrefix (groupId ++ ":") w.storage.outboundInvites).map (·.1)
  · rw [get_treeRemoveAll_of_mem hf hk]
    obtain ⟨-, -, -, hpre⟩ := h.mem_scanned.1 hk
    exact iff_of_false (by simp) fun hne => hne.2 hpre
  · rw [get_treeRemoveAll_of_notMem hk]
    refine (and_iff_left_of_imp fun he hpre => hk ?_).symm
    exact List.mem_map.2 ⟨(k, e), mem_scanPrefix.2 ⟨he, hpre⟩, rfl⟩

theorem holds_deleteAll_iff (h : w.Holds) :
    (w.step (.deleteAll f groupId)).Holds ↔ w.Careful (.deleteAll f groupId) := by
  cases hr : (w.swept f groupId).1 with
  | error err =>
    rw [step_deleteAll_error hr]
    have hfailed : ¬ ∀ e ∈ w.stored.entries, Text.HasPrefix (groupId ++ ":") e.1.key →
        f "outbound_invites" e.1.key = false := by
      rw [← h.swept_ok_iff, hr]
      simp
    refine iff_of_true (h.of_le (fun q e hq => ?_) fun k e => ?_) fun hall => (hfailed hall).elim
    · exact (InsertionMap.get_filterMap_keep.1 hq).1
    · -- what is left of the tree was in it
      have hle : (w.swept f groupId).2[k]? = some e → w.storage.outboundInvites[k]? = some e := get_treeRemoveAll_some
      constructor
      · intro he
        obtain ⟨q, hq, hkey⟩ := h.find.1 (hle he)
        refine ⟨q, ?_, hkey⟩
        refine InsertionMap.get_filterMap_keep.2 ⟨hq, ?_⟩
        rw [hkey, Std.ExtTreeMap.contains_eq_isSome_getElem?, he]
        rfl
      · rintro ⟨q, hq, rfl⟩
        obtain ⟨hq, hin⟩ := InsertionMap.get_filterMap_keep.1 hq
        rw [Std.ExtTreeMap.contains_eq_isSome_getElem?] at hin
        obtain ⟨v, hv⟩ := Option.isSome_iff_exists.1 hin
        have hfound := get_treeRemoveAll_some hv
        rw [h.find.2 ⟨q, hq, rfl⟩] at hfound
        rw [hv, hfound]
  | ok _ =>
    have hok : (w.swept f groupId).1 = .ok () := hr
    rw [step_deleteAll_ok hok]
    constructor
    · intro h' _ x hx hpre
      by_contra hne
      have hstored : (w.stored.filterMap fun p e => if p.groupId ≠ groupId then some e else none).get x.1 =
          some x.2 := InsertionMap.get_filterMap_keep.2 ⟨InsertionMap.get_eq_some_iff.2 hx, hne⟩
      exact ((h.find_swept hok).1 (h'.find.2 ⟨x.1, hstored, rfl⟩)).2 hpre
    · intro hc
      have hgroup := hc (h.swept_ok_iff.1 hok)
      refine h.of_le (fun q e hq => ?_) fun k e => ?_
      · exact (InsertionMap.get_filterMap_keep.1 hq).1
      · rw [h.find_swept hok, h.find]
        constructor
        · rintro ⟨⟨q, hq, hkey⟩, hpre⟩
          refine ⟨q, InsertionMap.get_filterMap_keep.2 ⟨hq, ?_⟩, hkey⟩
          rintro rfl
          exact hpre (hkey ▸ hasPrefix_key)
        · rintro ⟨q, hq, hkey⟩
          obtain ⟨hq, hg⟩ := InsertionMap.get_filterMap_keep.1 hq
          refine ⟨⟨q, hq, hkey⟩, fun hpre => hg ?_⟩
          exact hgroup (q, e) (InsertionMap.get_eq_some_iff.1 hq) (hkey ▸ hpre)

/-! Reads -/

section Lists
variable {α β : Type} {l : List α} {sel want : α → Bool} {F : α → Option β} {G : α → β}

theorem filterMap_eq_map_of_iff (hw : ∀ a ∈ l, want a = true → sel a = true ∧ F a = some (G a))
    (hn : ∀ a ∈ l, want a = false → sel a = true → F a = none) : (l.filter sel).filterMap F = (l.filter want).map G := by
  induction l with
  | nil => rfl
  | cons a l ih =>
    obtain ⟨hwa, hwl⟩ := List.forall_mem_cons.1 hw
    obtain ⟨hna, hnl⟩ := List.forall_mem_cons.1 hn
    have ih' := ih hwl hnl
    cases ha : want a with
    | true =>
      obtain ⟨hsel, hF⟩ := hwa ha
      rw [List.filter_cons_of_pos hsel, List.filter_cons_of_pos ha, List.filterMap_cons_some hF, List.map_cons, ih']
    | false =>
      rw [List.filter_cons_of_neg (by simp [ha] : ¬ want a = true)]
      cases hsel : sel a with
      | true => rw [List.filter_cons_of_pos hsel, List.filterMap_cons_none (hna ha hsel), ih']
      | false => rw [List.filter_cons_of_neg (by simp [hsel]), ih']

theorem sum_filterMap {size : β → ℕ} : (((l.filter sel).filterMap F).map size).sum =
    (l.map fun a => if sel a then (F a).elim 0 size else 0).sum := by
  induction l with
  | nil => rfl
  | cons a l ih =>
    rw [List.map_cons, List.sum_cons, ← ih]
    cases hsel : sel a with
    | true =>
      rw [List.filter_cons_of_pos hsel]
      cases hF : F a with
      | none => simp [List.filterMap_cons_none hF]
      | some b => simp [List.filterMap_cons_some hF]
    | false => simp [List.filter_cons_of_neg (show ¬ sel a = true by simp [hsel])]

theorem sum_map_filter {size : β → ℕ} : (((l.filter want).map G).map size).sum =
    (l.map fun a => if want a then size (G a) else 0).sum := by
  have hsum : (((l.filter want).filterMap (some ∘ G)).map size).sum =
      (l.map fun a => if want a then ((some ∘ G) a).elim 0 size else 0).sum := sum_filterMap
  rw [List.filterMap_eq_map] at hsum
  exact hsum

theorem filterMap_cons_toList {a : α} : (a :: l).filterMap F = (F a).toList ++ l.filterMap F := by
  cases hF : F a with
  | none => exact List.filterMap_cons_none hF
  | some b => exact List.filterMap_cons_some hF

/-- Two ways to weigh a list that agree on the whole, one never above the other, agree everywhere. -/
theorem eq_of_sum_eq {v u : α → ℕ} (hle : ∀ a ∈ l, v a ≤ u a) (hsum : (l.map v).sum = (l.map u).sum) :
    ∀ a ∈ l, v a = u a := by
  intro a ha
  by_contra hne
  exact absurd hsum (List.sum_lt_sum v u hle ⟨a, ha, lt_of_le_of_ne (hle a ha) hne⟩).ne

end Lists

theorem Holds.fetchGroup_perm (h : w.Holds) : (w.storage.fetchOutboundInvitesForGroup groupId).Perm
    ((w.stored.entries.filter fun e => Text.HasPrefix (groupId ++ ":") e.1.key).filterMap fun e =>
      (splitInviteKey e.1.key).map fun x => (x.2, e.2.invitation, e.2.createdAtMs)) := by
  have hperm := (h.filter fun e => decide (Text.HasPrefix (groupId ++ ":") e.1)).filterMap fun e =>
    (splitInviteKey e.1).map fun x => (x.2, e.2.invitation, e.2.createdAtMs)
  rw [List.filter_map, List.filterMap_map] at hperm
  exact hperm

/-- The length of a DID that comes out of a key, or 0. -/
def lengthOf (k : String) : ℕ := (splitInviteKey k).elim 0 fun x => x.2.toList.length

theorem lengthOf_did (hd : Text.HasPrefix "did:" p.inviteeDid) : p.inviteeDid.toList.length ≤ lengthOf p.key := by
  obtain ⟨x, hx, hle, -⟩ := splitInviteKey_did hd
  unfold lengthOf
  rw [hx]
  exact hle

theorem splits_of_lengthOf (hd : Text.HasPrefix "did:" p.inviteeDid)
    (h : p.inviteeDid.toList.length = lengthOf p.key) : p.Splits := by
  obtain ⟨x, hx, -, heq⟩ := splitInviteKey_did hd
  unfold lengthOf at h
  rw [hx] at h
  rw [splits_iff, hx, heq h]

theorem not_occurs_of_lengthOf (h : lengthOf k = 0) : ¬ Text.Occurs ":did:" k := by
  rw [← splitInviteKey_eq_none_iff]
  unfold lengthOf at h
  cases hs : splitInviteKey k with
  | none => rfl
  | some x =>
    obtain ⟨r, hr⟩ := did_of_splitInviteKey hs
    rw [hs, Option.elim_some, ← hr] at h
    simp at h

theorem fetchGroup_iff (h : w.Holds) : w.RoundTrips (.fetchGroup groupId) ↔ w.Careful (.fetchGroup groupId) := by
  refine Iff.trans (h.fetchGroup_perm.congr_left _) ?_
  constructor
  · intro hperm
    -- what is found bears a DID, so what is asked for does
    have hdid : ∀ e ∈ w.stored.entries, e.1.groupId = groupId → Text.HasPrefix "did:" e.1.inviteeDid := by
      intro e he hg
      have hfound := hperm.mem_iff.2 (List.mem_map_of_mem (List.mem_filter.2 ⟨he, by simpa using hg⟩))
      obtain ⟨z, -, hz⟩ := List.mem_filterMap.1 hfound
      obtain ⟨x, hx, heq⟩ := Option.map_eq_some_iff.1 hz
      rw [← (Prod.mk.inj heq).1]
      exact did_of_splitInviteKey hx
    -- and no letter is missing or too many
    have hsum := (hperm.map fun y => y.1.toList.length).sum_eq
    rw [sum_filterMap, sum_map_filter] at hsum
    have hsame := eq_of_sum_eq (fun e he => ?_) hsum.symm
    · intro e he hpre
      have hsame := hsame e he
      rw [if_pos (decide_eq_true hpre), Option.elim_map] at hsame
      by_cases hg : e.1.groupId = groupId
      · rw [if_pos hg]
        rw [if_pos (decide_eq_true hg)] at hsame
        exact splits_of_lengthOf (hdid e he hg) hsame
      · rw [if_neg hg]
        rw [if_neg (by simpa using hg)] at hsame
        exact not_occurs_of_lengthOf hsame.symm
    · by_cases hg : e.1.groupId = groupId
      · have hpre : Text.HasPrefix (groupId ++ ":") e.1.key := hg ▸ hasPrefix_key
        rw [if_pos (decide_eq_true hg), if_pos (decide_eq_true hpre), Option.elim_map]
        exact lengthOf_did (hdid e he hg)
      · rw [if_neg (by simpa using hg)]
        exact Nat.zero_le _
  · intro hc
    refine List.Perm.of_eq (filterMap_eq_map_of_iff (fun e he hg => ?_) fun e he hg hpre => ?_)
    · have hg' : e.1.groupId = groupId := of_decide_eq_true hg
      have hpre : Text.HasPrefix (groupId ++ ":") e.1.key := hg' ▸ hasPrefix_key
      have hsplits := hc e he hpre
      rw [if_pos hg', splits_iff] at hsplits
      exact ⟨decide_eq_true hpre, by rw [hsplits]; rfl⟩
    · have hno := hc e he (of_decide_eq_true hpre)
      rw [if_neg (of_decide_eq_false hg), ← splitInviteKey_eq_none_iff] at hno
      rw [hno]
      rfl

/-! Expiry -/

/-- Every addition must go well; then those are collected that the machine takes to be past. -/
theorem collectExpired_eq_some_iff {es : List (String × OutboundInvite)} {out : List (String × Did × GroupInvitation)} :
    collectExpired b timeoutMs nowMs es = some out ↔
      (∀ e ∈ es, (pastExpiry b e.2 timeoutMs nowMs).isSome) ∧
      out = (es.filter fun e => pastExpiry b e.2 timeoutMs nowMs = some true).filterMap fun e =>
        (splitInviteKey e.1).map fun x => (x.1, x.2, e.2.invitation) := by
  induction es generalizing out with
  | nil =>
    unfold collectExpired
    rw [Option.some_inj]
    exact ⟨fun heq => ⟨fun _ he => absurd he List.not_mem_nil, heq.symm⟩, fun heq => heq.2.symm⟩
  | cons e es ih =>
    unfold collectExpired
    rw [List.forall_mem_cons]
    cases hp : pastExpiry b e.2 timeoutMs nowMs with
    | none => simp
    | some past =>
      cases past with
      | false =>
        rw [List.filter_cons_of_neg (by simp [hp]), ih]
        simp
      | true =>
        rw [List.filter_cons_of_pos (by simp [hp]), filterMap_cons_toList, Option.map_eq_some_iff]
        constructor
        · rintro ⟨rest, hrest, rfl⟩
          obtain ⟨hall, rfl⟩ := ih.1 hrest
          exact ⟨⟨rfl, hall⟩, rfl⟩
        · rintro ⟨⟨-, hall⟩, rfl⟩
          exact ⟨_, ih.2 ⟨hall, rfl⟩, rfl⟩

/-- Where the sums fit into 64 bits it is the plain comparison, in both builds. -/
theorem checkedExpired_fits {s : LocalMessageStorage} (h : ∀ e ∈ s.outboundInvites.toList,
    Fits e.2.createdAtMs ∧ Fits (e.2.createdAtMs + timeoutMs.toInt)) :
    s.checkedExpiredOutboundInvites b timeoutMs nowMs =
      some (s.fetchExpiredOutboundInvites timeoutMs.toInt nowMs.toInt) := by
  have hpast : ∀ e ∈ s.outboundInvites.toList, pastExpiry b e.2 timeoutMs nowMs =
      some (decide (e.2.createdAtMs + timeoutMs.toInt < nowMs.toInt)) := by
    intro e he
    obtain ⟨hcreated, hsum⟩ := h e he
    unfold pastExpiry add
    rw [toInt_ofInt hcreated, result_fits hsum, Option.map_some]
    simp only [Int64.lt_iff_toInt_lt, toInt_ofInt hsum]
  refine collectExpired_eq_some_iff.2 ⟨fun e he => by rw [hpast e he]; rfl, ?_⟩
  unfold fetchExpiredOutboundInvites
  rw [List.filterMap_filter]
  refine List.filterMap_congr fun e he => ?_
  rw [hpast e he]
  simp only [Option.some_inj, decide_eq_true_eq]

/-- Every addition must go well, and what the machine takes to be past must be what is past, under its own name. -/
theorem Holds.roundTrips_fetchExpired (h : w.Holds) : w.RoundTrips (.fetchExpired b timeoutMs nowMs) ↔
    (∀ e ∈ w.stored.entries, (pastExpiry b e.2 timeoutMs nowMs).isSome) ∧
    ((w.stored.entries.filter fun e => pastExpiry b e.2 timeoutMs nowMs = some true).filterMap fun e =>
      (splitInviteKey e.1.key).map fun x => (x.1, x.2, e.2.invitation)).Perm
    ((w.stored.entries.filter fun e => Expired e.2 timeoutMs nowMs).map fun e =>
      (e.1.groupId, e.1.inviteeDid, e.2.invitation)) := by
  have hall : (∀ e ∈ w.storage.outboundInvites.toList, (pastExpiry b e.2 timeoutMs nowMs).isSome) ↔
      ∀ e ∈ w.stored.entries, (pastExpiry b e.2 timeoutMs nowMs).isSome := by
    simp only [h.mem_iff, List.forall_mem_map]
  have hperm := (h.filter fun e => decide (pastExpiry b e.2 timeoutMs nowMs = some true)).filterMap fun e =>
    (splitInviteKey e.1).map fun x => (x.1, x.2, e.2.invitation)
  rw [List.filter_map, List.filterMap_map] at hperm
  constructor
  · rintro ⟨out, hout, hexpected⟩
    obtain ⟨hsome, rfl⟩ := collectExpired_eq_some_iff.1 hout
    exact ⟨hall.1 hsome, hperm.symm.trans hexpected⟩
  · rintro ⟨hsome, hexpected⟩
    exact ⟨_, collectExpired_eq_some_iff.2 ⟨hall.2 hsome, rfl⟩, hperm.trans hexpected⟩

theorem fetchExpired_iff (h : w.Holds) :
    w.RoundTrips (.fetchExpired b timeoutMs nowMs) ↔ w.Careful (.fetchExpired b timeoutMs nowMs) := by
  rw [h.roundTrips_fetchExpired]
  constructor
  · rintro ⟨hsome, hperm⟩ e he
    obtain ⟨past, hpast⟩ := Option.isSome_iff_exists.1 (hsome e he)
    refine ⟨past, hpast, ?_⟩
    split_ifs with hexp
    · have hfound := hperm.mem_iff.2 (List.mem_map_of_mem (List.mem_filter.2 ⟨he, decide_eq_true hexp⟩))
      obtain ⟨z, hz, hsplit⟩ := List.mem_filterMap.1 hfound
      obtain ⟨hzmem, hzpast⟩ := List.mem_filter.1 hz
      obtain ⟨x, hx, heq⟩ := Option.map_eq_some_iff.1 hsplit
      have hx' : x = (e.1.groupId, e.1.inviteeDid) := Prod.ext (Prod.mk.inj heq).1 (Prod.mk.inj (Prod.mk.inj heq).2).1
      subst hx'
      obtain rfl := h.inj hzmem he (splitInviteKey_key hx)
      have htrue : pastExpiry b z.2 timeoutMs nowMs = some true := of_decide_eq_true hzpast
      rw [hpast] at htrue
      exact ⟨Option.some.inj htrue, splits_iff.2 hx⟩
    · intro htrue
      rw [← splitInviteKey_eq_none_iff]
      -- a name that comes out of its key would be that of something past, and that has another key
      cases hs : splitInviteKey e.1.key with
      | none => rfl
      | some x =>
        have hpast' : decide (pastExpiry b e.2 timeoutMs nowMs = some true) = true := by simp [hpast, htrue]
        have hgiven := hperm.mem_iff.1 (List.mem_filterMap.2
          ⟨e, List.mem_filter.2 ⟨he, hpast'⟩, Option.map_eq_some_iff.2 ⟨x, hs, rfl⟩⟩)
        obtain ⟨z, hz, heq⟩ := List.mem_map.1 hgiven
        obtain ⟨hzmem, hzexp⟩ := List.mem_filter.1 hz
        have hkey : z.1.key = e.1.key := by
          rw [splitInviteKey_key hs, ← (Prod.mk.inj heq).1, ← (Prod.mk.inj (Prod.mk.inj heq).2).1]
        obtain rfl := h.inj hzmem he hkey
        exact (hexp (of_decide_eq_true hzexp)).elim
  · intro hc
    refine ⟨fun e he => ?_, List.Perm.of_eq (filterMap_eq_map_of_iff (fun e he hexp => ?_) fun e he hexp hpast => ?_)⟩
    · obtain ⟨past, hpast, -⟩ := hc e he
      rw [hpast]
      rfl
    · obtain ⟨past, hpast, hright⟩ := hc e he
      rw [if_pos (of_decide_eq_true hexp), splits_iff] at hright
      rw [hright.2]
      exact ⟨decide_eq_true (hright.1 ▸ hpast), rfl⟩
    · obtain ⟨past, hpast', hright⟩ := hc e he
      rw [if_neg (of_decide_eq_false hexp), ← splitInviteKey_eq_none_iff] at hright
      have htrue : pastExpiry b e.2 timeoutMs nowMs = some true := of_decide_eq_true hpast
      rw [hpast'] at htrue
      rw [hright (Option.some.inj htrue)]
      rfl

/-! A run -/

theorem holds_new (hw : inviteLedgerSys.init w) : w.Holds := by
  unfold Holds
  rw [hw.1, hw.2]
  exact List.Perm.of_eq (by decide)

theorem roundTrips_iff (h : w.Holds) (op : InviteOp) : w.RoundTrips op ↔ w.Careful op := by
  cases op with
  | store f p invitation createdAtMs => exact holds_store_iff h
  | delete f p => exact holds_delete_iff h
  | deleteAll f groupId => exact holds_deleteAll_iff h
  | fetchGroup groupId => exact fetchGroup_iff h
  | fetchExpired b timeoutMs nowMs => exact fetchExpired_iff h

theorem Holds.step (h : w.Holds) (op : InviteOp) (hc : w.Careful op) : (w.step op).Holds := by
  cases op with
  | store f p invitation createdAtMs => exact (holds_store_iff h).2 hc
  | delete f p => exact (holds_delete_iff h).2 hc
  | deleteAll f groupId => exact (holds_deleteAll_iff h).2 hc
  | fetchGroup groupId => exact h
  | fetchExpired b timeoutMs nowMs => exact h

theorem run_roundTrips_iff (hw : inviteLedgerSys.init w) (ops : List InviteOp) :
    StepSystem.Guarded inviteLedgerSys RoundTrips w ops ↔ StepSystem.Guarded inviteLedgerSys Careful w ops :=
  StepSystem.guarded_iff (P := RoundTrips) (G := Careful) (fun _ op h => roundTrips_iff h op)
    (fun _ op h => h.step op) (holds_new hw) ops

def fresh : InviteLedger := ⟨.empty, ∅⟩

theorem init_fresh : inviteLedgerSys.init fresh := ⟨rfl, rfl⟩

def invite : GroupInvitation := ⟨"g", "Group", "did:a", "did:b", 0, [], [], []⟩

/-- Two groups, of which one id is the other's beginning. -/
def kept : List InviteOp := [.store noFaults ⟨"g", "did:b"⟩ invite 0, .store noFaults ⟨"gh", "did:b"⟩ invite 0,
  .fetchGroup "g", .fetchExpired .debug 300000 300001, .deleteAll noFaults "g", .fetchGroup "gh"]

theorem kept_roundTrips : StepSystem.Guarded inviteLedgerSys RoundTrips fresh kept :=
  (run_roundTrips_iff init_fresh kept).2 (by decide +kernel)

/-- A group whose id goes on with the separator is taken for the other, two pairs have one key, and a DID of another
kind is not found. -/
theorem not_kept : ¬ StepSystem.Guarded inviteLedgerSys RoundTrips fresh
      [.store noFaults ⟨"g:h", "did:b"⟩ invite 0, .fetchGroup "g"] ∧
    ¬ StepSystem.Guarded inviteLedgerSys RoundTrips fresh
      [.store noFaults ⟨"g:h", "did:b"⟩ invite 0, .deleteAll noFaults "g"] ∧
    ¬ StepSystem.Guarded inviteLedgerSys RoundTrips fresh
      [.store noFaults ⟨"g", "did:a:did:b"⟩ invite 0, .store noFaults ⟨"g:did:a", "did:b"⟩ invite 0] ∧
    ¬ StepSystem.Guarded inviteLedgerSys RoundTrips fresh
      [.store noFaults ⟨"g", "b"⟩ invite 0, .fetchExpired .release 300000 300001] := by
  have hcareful : ∀ op op', ¬ (fresh.step op).Careful op' →
      ¬ StepSystem.Guarded inviteLedgerSys RoundTrips fresh [op, op'] := by
    intro op op' hno h
    have hstored := (holds_new init_fresh).step op ((roundTrips_iff (holds_new init_fresh) op).1 h.1)
    exact hno ((roundTrips_iff hstored op').1 h.2.1)
  refine ⟨hcareful _ _ ?_, hcareful _ _ ?_, hcareful _ _ ?_, hcareful _ _ ?_⟩
  all_goals decide +kernel

end InviteLedger
end Variance
