import Variance.Proofs.InviteAuthority

/-! The pending commit and its record. A group's commit is pending in the MLS store, and what
frees it, the answer or the sweep, finds it through a record in the invite store. The two halves stay
together along every run whose steps lose neither: each write that carries the pair must succeed,
the record's key must parse back, and an answer must come from the invitee. -/

namespace Variance
namespace Node
variable {M : OpenMls} {W : Wire} {n n' : Node M} {env : Env} {g : String} {d : Did}

open LocalMessageStorage MlsGroupHandler

/-- The parser finds the key's own parts. -/
def KeyParses (g : String) (d : Did) : Prop := splitInviteKey (inviteKey g d) = some (g, d)

instance (g : String) (d : Did) : Decidable (KeyParses g d) := inferInstanceAs (Decidable (_ = _))

theorem key_of_splitInviteKey {k : String} (h : splitInviteKey k = some (g, d)) : k = inviteKey g d := by
  obtain ⟨⟨a, b⟩, hc, heq⟩ := Option.map_eq_some_iff.1 h
  obtain ⟨rfl, rfl⟩ : a = g ∧ String.ofList (b.toList.drop 1) = d := by simpa using heq
  obtain ⟨rfl, r, hr⟩ := Text.cutString_append hc
  have hb : b.toList = ':' :: b.toList.drop 1 := by
    rw [← hr]
    rfl
  rw [inviteKey, ← String.toList_inj]
  rw [String.toList_append, String.toList_append, String.toList_append, String.toList_ofList, hb]
  simp

/-- Nothing of a group id made by `mls_create_group` can be taken for the boundary. -/
theorem keyParses_of_noColon (hg : ':' ∉ g.toList) (hd : Text.HasPrefix "did:" d) : KeyParses g d := by
  obtain ⟨r, hr⟩ := hd
  have hp : ":did:".toList <+: ':' :: d.toList := ⟨r, by rw [← hr]; rfl⟩
  have hcut : Text.cut ":did:".toList (g.toList ++ ':' :: d.toList) = some (g.toList, ':' :: d.toList) := by
    refine Text.cut_append_of_no_earlier hp fun a' c hc hne hpre => ?_
    obtain ⟨x, c, rfl⟩ := List.exists_cons_of_ne_nil hne
    obtain ⟨y, hy⟩ := hpre
    obtain rfl : ':' = x := (List.cons.inj hy).1
    exact hg (by simp [hc])
  have hkey : (inviteKey g d).toList = g.toList ++ ':' :: d.toList := by simp [inviteKey]
  rw [KeyParses, splitInviteKey, Text.cutString, hkey, hcut]
  simp

/-- Every pending commit has exactly one record, every record a pending commit, and every key parses
back to the record's own group and invitee. -/
structure Owned (n : Node M) : Prop where
  parses : ∀ (k : String) (e : OutboundInvite), n.storage.outboundInvites[k]? = some e →
    splitInviteKey k = some (e.invitation.groupId, e.invitation.inviteeDid)
  pending : ∀ g, (n.mls.slot g).isSome ↔
    ∃ (k : String) (e : OutboundInvite), n.storage.outboundInvites[k]? = some e ∧ e.invitation.groupId = g
  unique : ∀ (k k' : String) (e e' : OutboundInvite), n.storage.outboundInvites[k]? = some e →
    n.storage.outboundInvites[k']? = some e' → e.invitation.groupId = e'.invitation.groupId → k = k'

theorem Owned.congr (h : n.Owned) (hs : ∀ g, n'.mls.slot g = n.mls.slot g)
    (hi : n'.storage.outboundInvites = n.storage.outboundInvites) : n'.Owned := by
  refine ⟨?_, fun g => ?_, ?_⟩
  · rw [hi]; exact h.parses
  · rw [hi, hs]; exact h.pending g
  · rw [hi]; exact h.unique

/-- The slot of `g` empties and the one record of `g` goes. -/
theorem Owned.release (h : n.Owned) {e : OutboundInvite}
    (he : n.storage.outboundInvites[inviteKey g d]? = some e) (hg : e.invitation.groupId = g)
    (hs : n'.mls.slot g = none) (hother : ∀ g', g' ≠ g → n'.mls.slot g' = n.mls.slot g')
    (hi : n'.storage.outboundInvites = n.storage.outboundInvites.erase (inviteKey g d)) : n'.Owned := by
  refine ⟨fun k x hx => ?_, fun g' => ?_, fun k k' x x' hx hx' => ?_⟩
  · rw [hi, get_erase] at hx
    split_ifs at hx
    exact h.parses k x hx
  · by_cases hne : g' = g
    · subst hne
      rw [hs]
      refine iff_of_false (by simp) ?_
      rintro ⟨k, x, hx, hxg⟩
      rw [hi, get_erase] at hx
      split_ifs at hx with hk
      exact hk (h.unique _ _ _ _ he hx (hg.trans hxg.symm))
    · rw [hother g' hne, h.pending g']
      constructor
      · rintro ⟨k, x, hx, hxg⟩
        refine ⟨k, x, ?_, hxg⟩
        rw [hi, get_erase, if_neg]
        · exact hx
        · rintro rfl
          obtain rfl : e = x := by simpa [he] using hx
          exact hne (hxg.symm.trans hg)
      · rintro ⟨k, x, hx, hxg⟩
        rw [hi, get_erase] at hx
        split_ifs at hx
        exact ⟨k, x, hx, hxg⟩
  · rw [hi, get_erase] at hx hx'
    split_ifs at hx hx'
    exact h.unique k k' x x' hx hx'

/-- The slot of `g`, empty before, fills and the record of `g` is stored. -/
theorem Owned.claim (h : n.Owned) {inv : GroupInvitation} {now : ℤ} (hkey : KeyParses g d)
    (hg : inv.groupId = g) (hd : inv.inviteeDid = d) (hfree : n.mls.slot g = none)
    (hs : (n'.mls.slot g).isSome) (hother : ∀ g', g' ≠ g → n'.mls.slot g' = n.mls.slot g')
    (hi : n'.storage.outboundInvites = n.storage.outboundInvites.insert (inviteKey g d) ⟨inv, now⟩) :
    n'.Owned := by
  have hnone : ∀ (k : String) (x : OutboundInvite), n.storage.outboundInvites[k]? = some x →
      x.invitation.groupId ≠ g := by
    intro k x hx hxg
    have := (h.pending g).2 ⟨k, x, hx, hxg⟩
    simp [hfree] at this
  refine ⟨fun k x hx => ?_, fun g' => ?_, fun k k' x x' hx hx' => ?_⟩
  · rw [hi, get_insert] at hx
    split_ifs at hx with hk
    · obtain rfl : (⟨inv, now⟩ : OutboundInvite) = x := by simpa using hx
      rw [← hk, hg, hd]
      exact hkey
    · exact h.parses k x hx
  · by_cases hne : g' = g
    · subst hne
      refine iff_of_true hs ⟨inviteKey g' d, ⟨inv, now⟩, ?_, hg⟩
      rw [hi, get_insert, if_pos rfl]
    · rw [hother g' hne, h.pending g']
      constructor
      · rintro ⟨k, x, hx, hxg⟩
        refine ⟨k, x, ?_, hxg⟩
        rw [hi, get_insert, if_neg]
        · exact hx
        · -- a record under this very key would parse to `g`
          rintro rfl
          have hp := h.parses _ _ hx
          rw [hkey] at hp
          obtain ⟨hpg, -⟩ : g = x.invitation.groupId ∧ d = x.invitation.inviteeDid := by simpa using hp
          exact hnone _ _ hx hpg.symm
      · rintro ⟨k, x, hx, hxg⟩
        rw [hi, get_insert] at hx
        split_ifs at hx
        · obtain rfl : (⟨inv, now⟩ : OutboundInvite) = x := by simpa using hx
          exact absurd (hxg.symm.trans hg) hne
        · exact ⟨k, x, hx, hxg⟩
  · rw [hi, get_insert] at hx hx'
    intro heq
    split_ifs at hx hx' with hk hk'
    · exact hk.symm.trans hk'
    · obtain rfl : (⟨inv, now⟩ : OutboundInvite) = x := by simpa using hx
      exact absurd (heq.symm.trans hg) (hnone _ _ hx')
    · obtain rfl : (⟨inv, now⟩ : OutboundInvite) = x' := by simpa using hx'
      exact absurd (heq.trans hg) (hnone _ _ hx)
    · exact h.unique k k' x x' hx hx' heq

/-! One lemma for each step -/

/-- `h.unique` and `h.parses` make the record of `(g, d)` the one under its key. -/
theorem Owned.record (h : n.Owned) (hi : n.HasInvite g d) :
    ∃ e, n.storage.outboundInvites[inviteKey g d]? = some e ∧ e.invitation.groupId = g := by
  obtain ⟨k, e, he, hg, hd⟩ := hi
  refine ⟨e, ?_, hg⟩
  rw [← hg, ← hd, ← key_of_splitInviteKey (h.parses k e he)]
  exact he

theorem owned_accepted (S : CommitSlot M) (h : n.Owned)
    (hc : n.mls.slot g = none ∨
      n.HasInvite g d ∧ env.faults "outbound_invites" (inviteKey g d) = false) :
    (n.handleInviteAcceptedDm env g d).Owned := by
  cases hs : n.mls.slot g with
  | none => rw [handleInviteAcceptedDm_none hs]; exact h
  | some k =>
    obtain ⟨hi, hf⟩ := hc.resolve_left (by simp [hs])
    obtain ⟨e, he, hg⟩ := h.record hi
    obtain ⟨hm, ho⟩ := handleInviteAcceptedDm_some env d S hs
    obtain ⟨x, hx, hxk⟩ := slot_eq_some.1 hs
    obtain ⟨p', x', hok, hx', -⟩ := confirmAddMember_some S hx hxk
    refine h.release he hg ?_ (fun g' hne => ?_) ?_
    · simp [hm, hok, slot, hx']
    · rw [hm, slot, confirmAddMember_other hne, slot]
    · rw [ho, treeRemove_ok hf]

theorem owned_declined (S : CommitSlot M) (h : n.Owned)
    (hc : n.HasInvite g d ∧ env.faults "outbound_invites" (inviteKey g d) = false ∨
      n.mls.slot g = none ∧ (n.storage.outboundInvites[inviteKey g d]? = none ∨
        env.faults "outbound_invites" (inviteKey g d) = true)) :
    (n.handleInviteDeclinedDm env g d).Owned := by
  rcases hc with ⟨hi, hf⟩ | ⟨hs, hf⟩
  · obtain ⟨e, he, hg⟩ := h.record hi
    refine h.release he hg (slot_cancelAddMember S) (fun g' hne => slot_cancelAddMember_other hne) ?_
    rw [handleInviteDeclinedDm_invites, treeRemove_ok hf]
  · refine h.congr (fun g' => ?_) ?_
    · obtain ⟨e, he⟩ := cancelAddMember_none hs
      rw [handleInviteDeclinedDm_mls, he]
    · rw [handleInviteDeclinedDm_invites]
      refine Std.ExtTreeMap.ext_getElem? fun k => ?_
      rw [get_treeRemove]
      split_ifs with hk
      · obtain ⟨rfl, hff⟩ := hk
        rcases hf with hf | hf
        · exact hf.symm
        · simp [hf] at hff
      · rfl

theorem owned_expireInvite (S : CommitSlot M) (h : n.Owned) {x : String × Did × GroupInvitation}
    (hi : n.HasInvite x.1 x.2.1) (hf : env.faults "outbound_invites" (inviteKey x.1 x.2.1) = false) :
    (expireInvite env n x).Owned := by
  obtain ⟨e, he, hg⟩ := h.record hi
  refine h.release he hg (slot_cancelAddMember S) (fun g' hne => slot_cancelAddMember_other hne) ?_
  simp [expireInvite, deleteOutboundInvite, treeRemove_ok hf]

/-- Another record outlives an expiry. -/
theorem hasInvite_expireInvite (h : n.Owned) {x : String × Did × GroupInvitation}
    (hne : inviteKey x.1 x.2.1 ≠ inviteKey g d) (hi : n.HasInvite g d) :
    (expireInvite env n x).HasInvite g d := by
  obtain ⟨k, e, he, hg, hd⟩ := hi
  obtain rfl : k = inviteKey g d := by rw [key_of_splitInviteKey (h.parses k e he), hg, hd]
  refine ⟨inviteKey g d, e, ?_, hg, hd⟩
  simp only [expireInvite, emit_storage, store_storage, deleteOutboundInvite]
  rw [get_treeRemove, if_neg fun hk => hne hk.1]
  exact he

theorem owned_foldl_expireInvite (S : CommitSlot M) :
    ∀ (xs : List (String × Did × GroupInvitation)) (n : Node M), n.Owned →
      (∀ x ∈ xs, n.HasInvite x.1 x.2.1) →
      (∀ x ∈ xs, env.faults "outbound_invites" (inviteKey x.1 x.2.1) = false) →
      xs.Pairwise (fun x y => inviteKey x.1 x.2.1 ≠ inviteKey y.1 y.2.1) →
      (xs.foldl (expireInvite env) n).Owned := by
  intro xs
  induction xs with
  | nil => intro n h _ _ _; exact h
  | cons x xs ih =>
    intro n h hi hf hp
    rw [List.pairwise_cons] at hp
    refine ih _ (owned_expireInvite S h (hi x (by simp)) (hf x (by simp))) (fun y hy => ?_)
      (fun y hy => hf y (by simp [hy])) hp.2
    exact hasInvite_expireInvite h (hp.1 y hy) (hi y (by simp [hy]))

theorem mem_fetchExpired {s : LocalMessageStorage} {timeout now : ℤ} {x : String × Did × GroupInvitation} :
    x ∈ s.fetchExpiredOutboundInvites timeout now ↔ ∃ (k : String) (e : OutboundInvite),
      s.outboundInvites[k]? = some e ∧ e.createdAtMs + timeout < now ∧
      splitInviteKey k = some (x.1, x.2.1) ∧ e.invitation = x.2.2 := by
  unfold fetchExpiredOutboundInvites
  rw [List.mem_filterMap]
  constructor
  · rintro ⟨⟨k, e⟩, hm, hx⟩
    split_ifs at hx with ht
    obtain ⟨p, hp, rfl⟩ := Option.map_eq_some_iff.1 hx
    exact ⟨k, e, (mem_iter _).1 hm, ht, hp, rfl⟩
  · rintro ⟨k, e, he, ht, hp, hinv⟩
    refine ⟨(k, e), (mem_iter _).2 he, ?_⟩
    simp only [ht, if_true, hp, Option.map_some, hinv]

/-- Distinct entries expire under distinct keys. -/
theorem fetchExpired_pairwise {s : LocalMessageStorage} {timeout now : ℤ} :
    (s.fetchExpiredOutboundInvites timeout now).Pairwise
      (fun x y => inviteKey x.1 x.2.1 ≠ inviteKey y.1 y.2.1) := by
  unfold fetchExpiredOutboundInvites
  refine List.Pairwise.filterMap _ (fun a b hab x hx y hy => ?_) Std.ExtTreeMap.distinct_keys_toList
  have hkey : ∀ (a : String × OutboundInvite) (x : String × Did × GroupInvitation),
      (if a.2.createdAtMs + timeout < now then
        (splitInviteKey a.1).map fun p => (p.1, p.2, a.2.invitation) else none) = some x →
      a.1 = inviteKey x.1 x.2.1 := by
    intro a x hx
    split_ifs at hx
    obtain ⟨p, hp, rfl⟩ := Option.map_eq_some_iff.1 hx
    exact key_of_splitInviteKey hp
  rw [← hkey a x hx, ← hkey b y hy]
  simpa using hab

theorem owned_sweep (S : CommitSlot M) (h : n.Owned)
    (hf : ∀ x ∈ n.storage.fetchExpiredOutboundInvites inviteTimeoutMs env.now,
      env.faults "outbound_invites" (inviteKey x.1 x.2.1) = false) :
    (n.sweepExpiredInvites env).Owned := by
  have hrec : ∀ x ∈ n.storage.fetchExpiredOutboundInvites inviteTimeoutMs env.now,
      n.HasInvite x.1 x.2.1 := by
    intro x hx
    obtain ⟨k, e, he, -, hp, -⟩ := mem_fetchExpired.1 hx
    have := h.parses k e he
    rw [hp] at this
    obtain ⟨hg, hd⟩ : x.1 = e.invitation.groupId ∧ x.2.1 = e.invitation.inviteeDid := by simpa using this
    exact ⟨k, e, he, hg.symm, hd.symm⟩
  have hfold := owned_foldl_expireInvite S _ n h hrec hf fetchExpired_pairwise
  unfold sweepExpiredInvites
  dsimp only
  split_ifs
  · exact hfold
  · exact hfold.congr (fun _ => rfl) rfl

/-- Whatever the records say, a sweep frees the groups it finds expired invites of. -/
theorem slot_foldl_expireInvite (S : CommitSlot M) :
    ∀ (xs : List (String × Did × GroupInvitation)) (n : Node M),
      n.mls.slot g = none ∨ (∃ x ∈ xs, x.1 = g) → (xs.foldl (expireInvite env) n).mls.slot g = none := by
  intro xs
  induction xs with
  | nil => intro n h; simpa using h
  | cons x xs ih =>
    intro n h
    refine ih _ ?_
    by_cases hx : x.1 = g
    · left
      rw [← hx]
      exact slot_cancelAddMember S
    · rcases h with h | ⟨y, hy, hyg⟩
      · left
        exact (slot_cancelAddMember_other (Ne.symm hx)).trans h
      · right
        refine ⟨y, (List.mem_cons.1 hy).resolve_left ?_, hyg⟩
        rintro rfl
        exact hx hyg

/-- What a leave or a delete scans under `{id}:` is its own, and every removal succeeds. -/
def DeletesOwn (n : Node M) (env : Env) (id : String) : Prop :=
  ∀ (k : String) (e : OutboundInvite), n.storage.outboundInvites[k]? = some e →
    Text.HasPrefix (id ++ ":") k →
    e.invitation.groupId = id ∧ env.faults "outbound_invites" k = false

/-- The group goes, and with it all its records. -/
theorem Owned.purge (h : n.Owned) {id : String} (hc : n.DeletesOwn env id)
    (hs : n'.mls.slot id = none) (hother : ∀ g, g ≠ id → n'.mls.slot g = n.mls.slot g)
    (hi : n'.storage.outboundInvites = (treeRemoveAll env.faults "outbound_invites"
      ((scanPrefix (id ++ ":") n.storage.outboundInvites).map (·.1)) n.storage.outboundInvites).2) :
    n'.Owned := by
  have hmem {k : String} {e : OutboundInvite} (he : n.storage.outboundInvites[k]? = some e) :
      k ∈ (scanPrefix (id ++ ":") n.storage.outboundInvites).map (·.1) ↔ e.invitation.groupId = id := by
    constructor
    · rintro hk
      obtain ⟨⟨k', e'⟩, hm, rfl⟩ := List.mem_map.1 hk
      obtain ⟨he', hp⟩ := mem_scanPrefix.1 hm
      obtain rfl : e = e' := by simpa [he] using he'
      exact (hc _ _ he hp).1
    · intro hid
      refine List.mem_map.2 ⟨(k, e), mem_scanPrefix.2 ⟨he, ?_⟩, rfl⟩
      rw [key_of_splitInviteKey (h.parses k e he), hid]
      exact Text.hasPrefix_append _ _
  have hfault : ∀ k ∈ (scanPrefix (id ++ ":") n.storage.outboundInvites).map (·.1),
      env.faults "outbound_invites" k = false := by
    intro k hk
    obtain ⟨⟨k', e⟩, hm, rfl⟩ := List.mem_map.1 hk
    obtain ⟨he, hp⟩ := mem_scanPrefix.1 hm
    exact (hc _ _ he hp).2
  have hleft (k : String) (e : OutboundInvite) : n'.storage.outboundInvites[k]? = some e ↔
      n.storage.outboundInvites[k]? = some e ∧ e.invitation.groupId ≠ id := by
    rw [hi]
    constructor
    · intro he
      have he₀ := get_treeRemoveAll_some he
      refine ⟨he₀, fun hid => ?_⟩
      rw [get_treeRemoveAll_of_mem hfault ((hmem he₀).2 hid)] at he
      cases he
    · rintro ⟨he, hid⟩
      rw [get_treeRemoveAll_of_notMem fun hk => hid ((hmem he).1 hk)]
      exact he
  refine ⟨fun k e he => h.parses k e ((hleft k e).1 he).1, fun g => ?_, fun k k' e e' he he' =>
    h.unique k k' e e' ((hleft k e).1 he).1 ((hleft k' e').1 he').1⟩
  by_cases hg : g = id
  · subst hg
    rw [hs]
    refine iff_of_false (by simp) ?_
    rintro ⟨k, e, he, hg⟩
    exact ((hleft k e).1 he).2 hg
  · rw [hother g hg, h.pending g]
    constructor
    · rintro ⟨k, e, he, heg⟩
      exact ⟨k, e, (hleft k e).2 ⟨he, fun hid => hg (heg.symm.trans hid)⟩, heg⟩
    · rintro ⟨k, e, he, heg⟩
      exact ⟨k, e, ((hleft k e).1 he).1, heg⟩

theorem purgeGroup_invites {id : String} : (n.purgeGroup env id).storage.outboundInvites =
    (treeRemoveAll env.faults "outbound_invites"
      ((scanPrefix (id ++ ":") n.storage.outboundInvites).map (·.1)) n.storage.outboundInvites).2 := by
  have h : ∀ s : LocalMessageStorage, (s.deleteAllOutboundInvitesForGroup env.faults id).2.outboundInvites =
      (treeRemoveAll env.faults "outbound_invites"
        ((scanPrefix (id ++ ":") s.outboundInvites).map (·.1)) s.outboundInvites).2 := fun _ => rfl
  unfold purgeGroup
  rw [store_storage, h]
  simp [deleteGroupLastReadAt, deleteGroupMetadata, deleteGroupMessages_invites]

/-- A leave gets as far as forgetting the group. -/
def Departs (n : Node M) (env : Env) (id : String) : Prop :=
  (n.isSoleAdmin id && n.hasOtherMembers id) = false ∧
    ∃ m b, (n.mls.leaveGroup id env.rng).1 = .ok m ∧ M.serializeMessage m = .ok b

theorem owned_leave (S : CommitSlot M) (h : n.Owned) {id : String}
    (hc : n.Departs env id → n.DeletesOwn env id) : (n.mlsLeaveGroup env id).2.Owned := by
  unfold mlsLeaveGroup
  split_ifs with hsole
  · exact h
  unfold departGroup
  split
  · rename_i heq
    exact h.congr (fun g => by rw [← (Prod.mk.inj heq).2]; exact slot_leaveGroup S n.mls id g _) rfl
  · rename_i m mls heq
    have hslot (g : String) : mls.slot g = n.mls.slot g := by
      have := slot_leaveGroup S n.mls id g env.rng
      rwa [heq] at this
    dsimp only
    split
    · exact h.congr hslot rfl
    · rename_i b hb
      have hown := hc ⟨by simpa using hsole, m, b, by rw [heq], hb⟩
      refine h.purge hown ?_ (fun g hg => ?_) ?_
      · rw [slot, refreshKeyPackage_groups]
        exact slot_removeGroup
      · rw [slot, refreshKeyPackage_groups]
        exact (congrArg (·.bind M.pendingCommit) (removeGroup_other hg)).trans (hslot g)
      · rw [refreshKeyPackage_storage, purgeGroup_invites]
        rfl

theorem slot_announceLeave (S : CommitSlot M) {id : String} :
    (n.announceLeave env id).mls.slot g = n.mls.slot g := by
  have hslot := slot_leaveGroup S n.mls id g env.rng
  unfold announceLeave
  split
  · rename_i heq
    rwa [heq] at hslot
  · rename_i heq
    rw [heq] at hslot
    dsimp only
    split <;> exact hslot

theorem owned_delete (S : CommitSlot M) (h : n.Owned) {id : String}
    (hc : n.requireRole id "admin" = .ok () → n.DeletesOwn env id) :
    (n.mlsDeleteGroup env id).2.Owned := by
  unfold mlsDeleteGroup
  split
  · exact h
  rename_i hrole
  refine h.purge (hc hrole) ?_ (fun g hg => ?_) ?_
  · exact slot_removeGroup
  · exact (congrArg (·.bind M.pendingCommit) (removeGroup_other hg)).trans (slot_announceLeave S)
  · rw [purgeGroup_invites]
    simp

theorem owned_invite (S : CommitSlot M) (h : n.Owned) {net : InviteNet} {id invitee : String}
    (hc : ∀ d kp r mls, n.inviteKeyPackage net id invitee = .ok (d, kp) →
      n.mls.addMemberDeferred id kp env.rng = (.ok r, mls) →
      (∃ b, M.serializeMessage r.welcome = .ok b) ∧ (∃ b, M.serializeMessage r.commit = .ok b) ∧
        env.faults "outbound_invites" (inviteKey id d) = false ∧ KeyParses id d) :
    (n.mlsInviteToGroup W env net id invitee).2.Owned := by
  unfold mlsInviteToGroup
  split
  · exact h
  rename_i d kp hkp
  split
  · rename_i heq
    exact h.congr (fun g => addMemberDeferred_error S heq) rfl
  rename_i r mls hadd
  obtain ⟨⟨w, hw⟩, ⟨c, hcm⟩, hf, hparse⟩ := hc d kp r mls hkp hadd
  obtain ⟨hfree, k, hk, -, -⟩ := addMemberDeferred_ok S hadd
  have hother (g : String) (hg : g ≠ id) : mls.slot g = n.mls.slot g := by
    have hgroup := congrArg (fun x => x.2.groups[g]?) hadd
    simp only [addMemberDeferred_other hg] at hgroup
    rw [slot, slot, hgroup]
  unfold sendInvitation
  rw [hw, hcm]
  dsimp only
  have hins : ∀ s : LocalMessageStorage, ∀ i : GroupInvitation,
      (s.storeOutboundInvite env.faults id d i env.now).2.outboundInvites =
        s.outboundInvites.insert (inviteKey id d) ⟨i, env.now⟩ := fun s i => by
    simp [storeOutboundInvite, treeInsert_ok hf]
  split_ifs
  all_goals
    refine h.claim hparse ?_ ?_ hfree ?_ hother (hins _ _)
    · rfl
    · rfl
    · simp [hk]

/-- An answer to an invitation takes slot and record together: it comes from the invitee and the
record's removal succeeds, or it finds nothing and removes nothing. -/
def AnswerPaired (n : Node M) (env : Env) (d : Did) (content : MessageContent) : Prop :=
  match content.metadata["type"]?, content.metadata["group_id"]? with
  | some "mls_invite_accepted", some g =>
    n.mls.slot g = none ∨ n.HasInvite g d ∧ env.faults "outbound_invites" (inviteKey g d) = false
  | some "mls_invite_declined", some g =>
    n.HasInvite g d ∧ env.faults "outbound_invites" (inviteKey g d) = false ∨
      n.mls.slot g = none ∧ (n.storage.outboundInvites[inviteKey g d]? = none ∨
        env.faults "outbound_invites" (inviteKey g d) = true)
  | _, _ => True

theorem owned_direct (S : CommitSlot M) (h : n.Owned) {mid : String} {ts : ℤ} {content : MessageContent}
    (hc : n.AnswerPaired env d content) : (n.handleDirectContent W env d mid ts content).Owned := by
  have hforget {n' : Node M} {x : Did} (h' : n'.Owned) :
      (n'.store fun s => s.deleteDirectById env.faults d x ts mid).Owned :=
    h'.congr (fun _ => rfl) deleteDirectById_invites
  unfold AnswerPaired at hc
  unfold handleDirectContent
  dsimp only
  split
  · refine hforget ?_
    split
    · exact h.congr (fun g => by rw [handleGroupInvitationDm_mls]) handleGroupInvitationDm_storage.1
    · exact h
  · rename_i ht
    rw [ht] at hc
    refine hforget ?_
    split
    · rename_i hg
      rw [hg] at hc
      exact owned_accepted S h hc
    · exact h
  · rename_i ht
    rw [ht] at hc
    refine hforget ?_
    split
    · rename_i hg
      rw [hg] at hc
      exact owned_declined S h hc
    · exact h
  · exact h.congr (fun _ => rfl) rfl

/-- The steps an invitation can take at the inviter: invite, answer, sweep, leave, delete. -/
def InviteFlow : Op → Prop
  | .invite .. | .direct .. | .sweep .. | .leave .. | .delete .. => True
  | _ => False

/-- The step moves commit and record together. -/
def Paired (n : Node M) : Op → Prop
  | .invite env net id invitee => ∀ d kp r mls, n.inviteKeyPackage net id invitee = .ok (d, kp) →
      n.mls.addMemberDeferred id kp env.rng = (.ok r, mls) →
      (∃ b, M.serializeMessage r.welcome = .ok b) ∧ (∃ b, M.serializeMessage r.commit = .ok b) ∧
        env.faults "outbound_invites" (inviteKey id d) = false ∧ KeyParses id d
  | .direct env d _ _ content => n.AnswerPaired env d content
  | .sweep env => ∀ x ∈ n.storage.fetchExpiredOutboundInvites inviteTimeoutMs env.now,
      env.faults "outbound_invites" (inviteKey x.1 x.2.1) = false
  | .leave env id => n.Departs env id → n.DeletesOwn env id
  | .delete env id => n.requireRole id "admin" = .ok () → n.DeletesOwn env id
  | _ => True

theorem owned_exec (S : CommitSlot M) (h : n.Owned) {op : Op} (hflow : InviteFlow op)
    (hc : n.Paired op) : (n.exec W op).Owned := by
  cases op with
  | invite env net id invitee => exact owned_invite S h hc
  | direct env d mid ts content => exact owned_direct S h hc
  | sweep env => exact owned_sweep S h hc
  | leave env id => exact owned_leave S h hc
  | delete env id => exact owned_delete S h hc
  | _ => exact hflow.elim

/-- The commit of `g` is pending exactly when `g` has exactly one record, and its record is returned
by the fetch for `g` and, once expired, by the fetch of expired invites. -/
structure Discoverable (n : Node M) (g : String) : Prop where
  iff_unique : (n.mls.slot g).isSome ↔ ∃! k : String, ∃ e : OutboundInvite,
    n.storage.outboundInvites[k]? = some e ∧ e.invitation.groupId = g
  fetched : ∀ (k : String) (e : OutboundInvite), n.storage.outboundInvites[k]? = some e →
    e.invitation.groupId = g → (e.invitation.inviteeDid, e.invitation, e.createdAtMs) ∈
      n.storage.fetchOutboundInvitesForGroup g
  expires : ∀ (k : String) (e : OutboundInvite) (now : ℤ), n.storage.outboundInvites[k]? = some e →
    e.invitation.groupId = g → e.createdAtMs + inviteTimeoutMs < now →
    (g, e.invitation.inviteeDid, e.invitation) ∈ n.storage.fetchExpiredOutboundInvites inviteTimeoutMs now

theorem Owned.discoverable (h : n.Owned) (g : String) : n.Discoverable g := by
  refine ⟨?_, fun k e he hg => ?_, fun k e now he hg ht => ?_⟩
  · rw [h.pending g]
    constructor
    · rintro ⟨k, e, he, hg⟩
      refine ⟨k, ⟨e, he, hg⟩, ?_⟩
      rintro k' ⟨e', he', hg'⟩
      exact h.unique _ _ _ _ he' he (hg'.trans hg.symm)
    · rintro ⟨k, ⟨e, he, hg⟩, -⟩
      exact ⟨k, e, he, hg⟩
  · refine List.mem_filterMap.2 ⟨(k, e), mem_scanPrefix.2 ⟨he, ?_⟩, ?_⟩
    · rw [key_of_splitInviteKey (h.parses k e he), hg]
      exact Text.hasPrefix_append _ _
    · simp [h.parses k e he]
  · exact mem_fetchExpired.2 ⟨k, e, he, ht, hg ▸ h.parses k e he, rfl⟩

end Node

/-- No commit is pending and no record is stored. -/
structure Node.Quiet {M : OpenMls} (n : Node M) : Prop where
  slots : ∀ g, n.mls.slot g = none
  invites : n.storage.outboundInvites = ∅

theorem Node.Quiet.owned {M : OpenMls} {n : Node M} (h : n.Quiet) : n.Owned := by
  refine ⟨?_, fun g => ?_, ?_⟩
  · rw [h.invites]; simp
  · rw [h.slots g, h.invites]; simp
  · rw [h.invites]; simp

/-- An inviter's node, from any state with no invitation under way. -/
def inviteSys (M : OpenMls) (W : Wire) : StepSystem.Sys (Node M) Op where
  init n := n.Quiet
  step n op := n.exec W op

/-- Along every run of the flow whose steps all move commit and record together, every group is
discoverable, and a sweep past the expiry of a group's record frees the group. -/
theorem paired_runs_discoverable {M : OpenMls} (S : CommitSlot M) (W : Wire) (n : Node M)
    (h : StepSystem.Reach (inviteSys M W) (fun n op => Node.InviteFlow op ∧ n.Paired op) n) (g : String) :
    n.Discoverable g ∧ ∀ (k : String) (e : OutboundInvite) (env : Env),
      n.storage.outboundInvites[k]? = some e → e.invitation.groupId = g →
      e.createdAtMs + inviteTimeoutMs < env.now → (n.sweepExpiredInvites env).mls.slot g = none := by
  have hown : n.Owned := h.invariant (I := Node.Owned) (fun n (hq : n.Quiet) => hq.owned)
    fun _ _ ho hg => Node.owned_exec S ho hg.1 hg.2
  refine ⟨hown.discoverable g, fun k e env he hg ht => ?_⟩
  have hmem := (hown.discoverable g).expires k e env.now he hg ht
  unfold Node.sweepExpiredInvites
  dsimp only
  split_ifs
  all_goals exact Node.slot_foldl_expireInvite S _ n (Or.inr ⟨_, hmem, rfl⟩)

/-! An invitation whose record is not written -/

namespace InviteOwnership
open IdealMls InviteAuthority

def created : Node idealMls := alice.exec idealWire (.create env "G")

theorem quiet_created : created.Quiet := by
  have hall : ∀ x ∈ created.mls.groups.toList, (idealMls.pendingCommit x.2).isNone = true := by
    decide +kernel
  refine ⟨fun g => ?_, by decide +kernel⟩
  cases hg : created.mls.groups[g]? with
  | none => simp [MlsGroupHandler.slot, hg]
  | some x => simpa [MlsGroupHandler.slot, hg] using hall (g, x) ((mem_iter _).2 hg)

/-- The disk refuses the record; the handler logs a warning and sends the invitation all the same. -/
def fullDisk : Env := { env with faults := fun tree _ => tree = "outbound_invites" }

def blocked : Node idealMls := created.exec idealWire (.invite fullDisk net "g" "did:b")

/-- The group is blocked with nothing that could ever free it: no record, so no sweep finds it. -/
theorem unowned_commit : ¬ ∀ n : Node idealMls, StepSystem.Reach (inviteSys idealMls idealWire)
    (fun _ op => Node.InviteFlow op) n → ∀ g, n.Discoverable g := by
  intro h
  have hreach : StepSystem.Reach (inviteSys idealMls idealWire) (fun _ op => Node.InviteFlow op) blocked :=
    StepSystem.Reach.snoc (M := inviteSys idealMls idealWire) (e := .invite fullDisk net "g" "did:b")
      (.init quiet_created) trivial
  have hslot : (blocked.mls.slot "g").isSome = true := by decide +kernel
  obtain ⟨k, ⟨e, he, -⟩, -⟩ := (h blocked hreach "g").iff_unique.1 hslot
  have hnone : blocked.storage.outboundInvites = ∅ := by decide +kernel
  simp [hnone] at he

def pending : Node idealMls := created.exec idealWire (.invite env net "g" "did:b")

def later : Env := { env with now := 300001 }

/-- With the write done, the invitation is found and its expiry frees the group. -/
theorem expiry_frees : pending.Discoverable "g" ∧ (pending.sweepExpiredInvites later).mls.slot "g" = none := by
  have hreach : StepSystem.Reach (inviteSys idealMls idealWire)
      (fun n op => Node.InviteFlow op ∧ n.Paired op) pending := by
    refine StepSystem.Reach.snoc (M := inviteSys idealMls idealWire)
      (e := .invite env net "g" "did:b") (.init quiet_created) ⟨trivial, ?_⟩
    intro d kp r mls hkp _
    have hd : (created.inviteKeyPackage net "g" "did:b").toOption.map (·.1) = some "did:b" := by
      decide +kernel
    obtain rfl : d = "did:b" := by simpa [hkp, Except.toOption, eq_comm] using hd
    exact ⟨⟨_, rfl⟩, ⟨_, rfl⟩, rfl, by decide +kernel⟩
  have hmain := paired_runs_discoverable slots idealWire pending hreach "g"
  have hrec : ∃ x ∈ pending.storage.outboundInvites.toList,
      x.2.invitation.groupId = "g" ∧ x.2.createdAtMs + inviteTimeoutMs < later.now := by decide +kernel
  obtain ⟨x, hx, hg, ht⟩ := hrec
  exact ⟨hmain.1, hmain.2 x.1 x.2 later ((mem_iter _).1 hx) hg ht⟩

end InviteOwnership
end Variance
