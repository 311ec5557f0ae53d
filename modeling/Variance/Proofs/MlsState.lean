import Variance.Proofs.CrashConsistency
import Variance.Sanity.IdealKeyStore
import Variance.Sanity.Stored

/-! The MLS state is restored as it was exported, or not at all. -/

namespace Variance

/-! The entries -/

namespace StateCodec
variable (C : StateCodec)

theorem decodeHex_hexText (what : String) (b : Bytes) : C.decodeHex what (hexText b) = .ok b := by
  simp [decodeHex, hexText, Text.unhexChars_hexChars]

theorem decodeHex_ok_iff (what s : String) :
    (∃ b, C.decodeHex what s = .ok b) ↔ (Text.unhexChars s.toList).isSome := by
  unfold decodeHex
  cases Text.unhexChars s.toList <;> simp

theorem decodeEntries_hexText (es : List (Bytes × Bytes)) (t : KeyValues) :
    C.decodeEntries (es.map fun e => (hexText e.1, hexText e.2)) t =
      .ok (es.foldl (fun t e => t.insert e.1 e.2) t) := by
  induction es generalizing t with
  | nil => rfl
  | cons e es ih =>
    rw [List.map_cons, decodeEntries, decodeHex_hexText, decodeHex_hexText]
    exact ih _

theorem decodeEntries_ok_iff (es : List (String × String)) (t : KeyValues) :
    (∃ t', C.decodeEntries es t = .ok t') ↔
      ∀ e ∈ es, (Text.unhexChars e.1.toList).isSome ∧ (Text.unhexChars e.2.toList).isSome := by
  induction es generalizing t with
  | nil => simp [decodeEntries]
  | cons e es ih =>
    rw [List.forall_mem_cons, ← C.decodeHex_ok_iff "key", ← C.decodeHex_ok_iff "value", decodeEntries]
    cases hk : C.decodeHex "key" e.1 with
    | error err => simp
    | ok k =>
      cases hv : C.decodeHex "value" e.2 with
      | error err => simp
      | ok v => simpa using ih (t.insert k v)

end StateCodec

/-! The groups -/

namespace MlsGroupHandler
variable {M : OpenMls} {K : MlsKeyStore M} {C : StateCodec} {h : MlsGroupHandler M}

/-- What is reloaded is what `restoreInPlace` restores. -/
theorem reload_eq (h : MlsGroupHandler M) (s : MlsStateSnapshot M) (n : ℕ) :
    reload s.storage s.groupIds n h.groups =
      (n + s.groupIds.countP (fun gid => (loaded s.storage gid).isSome), (h.restoreInPlace s).groups) := by
  obtain ⟨ids, p⟩ := s
  obtain ⟨did, provider, groups, counters⟩ := h
  dsimp only [restoreInPlace]
  induction ids generalizing n groups with
  | nil => rfl
  | cons id ids ih =>
    rw [List.foldl_cons, reload, List.countP_cons]
    rcases hl : M.loadGroup id p with e | _ | g
    · have hnone : loaded p id = none := by simp [loaded, hl]
      simp only [ih, hnone]
      rfl
    · have hnone : loaded p id = none := by simp [loaded, hl]
      simp only [ih, hnone]
      rfl
    · have hsome : loaded p id = some g := by simp [loaded, hl]
      simp only [ih, hsome, Option.isSome_some, if_true]
      rw [Nat.add_assoc, Nat.add_comm 1]

theorem restoreInPlace_get (h : MlsGroupHandler M) (s : MlsStateSnapshot M) (gid : String) :
    (h.restoreInPlace s).groups[gid]? =
      if gid ∈ s.groupIds then (loaded s.storage gid).or h.groups[gid]? else h.groups[gid]? := by
  refine (CrashWorld.restore_get s.storage s.groupIds h.groups).trans ?_
  unfold loaded
  rcases M.loadGroup gid s.storage with e | _ | g
  · simp
  · simp
  · split_ifs <;> simp

/-- A snapshot with good hex is restored, over whatever there was. -/
theorem restoreBytes_ok (hK : K.Lawful) {b : Bytes} {s : StateSnapshot} {t : KeyValues}
    (hs : C.fromSlice b = .ok s) (ht : C.decodeEntries s.storageEntries ∅ = .ok t) :
    ∃ p, K.storeKeypair h.localDid (K.withValues h.provider t) = .ok p ∧
      h.restoreBytes K C b = (.ok (s.groupIds.countP fun gid => (loaded p gid).isSome),
        h.restoreInPlace ⟨s.groupIds, p⟩) := by
  obtain ⟨p, hp, -⟩ := hK.storeKeypair h.localDid (K.withValues h.provider t)
  refine ⟨p, hp, ?_⟩
  have hreload := h.reload_eq ⟨s.groupIds, p⟩ 0
  simp only [Nat.zero_add] at hreload
  simp only [restoreBytes, hs, ht, hp, hreload]
  rfl

theorem restoreBytes_error {b : Bytes}
    (hb : ∀ s t, C.fromSlice b = .ok s → C.decodeEntries s.storageEntries ∅ ≠ .ok t) :
    (∃ e, (h.restoreBytes K C b).1 = .error e) ∧ (h.restoreBytes K C b).2 = h := by
  unfold restoreBytes
  cases hs : C.fromSlice b with
  | error e => exact ⟨⟨_, rfl⟩, rfl⟩
  | ok s =>
    cases ht : C.decodeEntries s.storageEntries ∅ with
    | error e => exact ⟨⟨e, by simp [ht]⟩, by simp [ht]⟩
    | ok t => exact absurd ht (hb s t hs)

theorem atomic (hK : K.Lawful) (h : MlsGroupHandler M) (b : Bytes) : h.Atomic K C b := by
  by_cases hb : ∃ s t, C.fromSlice b = .ok s ∧ C.decodeEntries s.storageEntries ∅ = .ok t
  · obtain ⟨s, t, hs, ht⟩ := hb
    obtain ⟨p, -, hr⟩ := restoreBytes_ok (h := h) hK hs ht
    have hhex : AllHex s := (C.decodeEntries_ok_iff _ _).1 ⟨t, ht⟩
    refine ⟨fun e he => by simp [hr] at he, ?_, fun s' n hs' hn => ?_⟩
    · refine ⟨fun ⟨e, he⟩ => by simp [hr] at he, fun hall => absurd hhex (hall s hs)⟩
    · obtain rfl : s = s' := by simpa [hs] using hs'
      rw [hr] at hn ⊢
      exact ⟨(Except.ok.inj hn).symm, fun gid => h.restoreInPlace_get ⟨s.groupIds, p⟩ gid⟩
  · have hb' : ∀ s t, C.fromSlice b = .ok s → C.decodeEntries s.storageEntries ∅ ≠ .ok t :=
      fun s t hs ht => hb ⟨s, t, hs, ht⟩
    obtain ⟨⟨e, he⟩, hsame⟩ := restoreBytes_error (K := K) (h := h) hb'
    refine ⟨fun _ _ => hsame, ⟨fun _ s hs hhex => ?_, fun _ => ⟨e, he⟩⟩, fun s n _ hn => by simp [he] at hn⟩
    obtain ⟨t, ht⟩ := (C.decodeEntries_ok_iff _ ∅).2 hhex
    exact hb' s t hs ht

namespace Stored

theorem loaded_eq (hs : h.Stored K) {gid : String} {g : M.Group} (hg : h.groups[gid]? = some g) :
    loaded h.provider gid = some g := by
  obtain ⟨hid, hold⟩ := hs.holds gid g hg
  simp [loaded, ← hid, hold.2]

/-- The ids that a snapshot lists. -/
theorem mem_groupIds (h : MlsGroupHandler M) (ids : HashOrder String) (gid : String) :
    gid ∈ ids.order (h.groups.toList.map (·.1)) ↔ (h.groups[gid]?).isSome := by
  rw [(ids.perm _).mem_iff, Option.isSome_iff_exists]
  simp only [List.mem_map, Prod.exists, Std.ExtTreeMap.mem_toList_iff_getElem?_eq_some]
  exact ⟨fun ⟨k, g, hg, hk⟩ => ⟨g, hk ▸ hg⟩, fun ⟨g, hg⟩ => ⟨gid, g, hg, rfl⟩⟩

/-- Each of them is restored. -/
theorem countP_groupIds (hs : h.Stored K) (ids : HashOrder String) :
    ((ids.order (h.groups.toList.map (·.1))).countP fun gid => (loaded h.provider gid).isSome) = h.groups.size := by
  have hall : ∀ gid ∈ ids.order (h.groups.toList.map (·.1)), (loaded h.provider gid).isSome := fun gid hgid => by
    obtain ⟨g, hg⟩ := Option.isSome_iff_exists.1 ((mem_groupIds h ids gid).1 hgid)
    simp [hs.loaded_eq hg]
  rw [List.countP_eq_length.2 hall, (ids.perm _).length_eq, List.length_map, Std.ExtTreeMap.length_toList]

/-- And they are all there is in a handler that was empty. -/
theorem restoreInPlace_groups (hs : h.Stored K) (ids : HashOrder String) (fresh : MlsGroupHandler M)
    (hf : fresh.groups = ∅) :
    (fresh.restoreInPlace ⟨ids.order (h.groups.toList.map (·.1)), h.provider⟩).groups = h.groups := by
  refine Std.ExtTreeMap.ext_getElem? fun gid => ?_
  rw [restoreInPlace_get, if_congr (mem_groupIds h ids gid) rfl rfl, hf]
  cases hg : h.groups[gid]? with
  | none => simp
  | some g => simp [hs.loaded_eq hg]

/-- Where every live group is in the key store, a snapshot gives the handler back. -/
theorem restores (hK : K.Lawful) (hC : C.Lawful) (hs : h.Stored K) : h.Restores K C := by
  intro ids entries fresh hn
  obtain ⟨p₀, hp₀, -⟩ := hK.storeKeypair h.localDid K.default
  simp only [new, hp₀, Except.ok.injEq] at hn
  subst hn
  obtain ⟨b, hb, hback⟩ := hC
    { groupIds := ids.order (h.groups.toList.map (·.1))
      storageEntries := (entries.order (K.values h.provider).toList).map fun e => (hexText e.1, hexText e.2) }
  refine ⟨b, by unfold exportBytes; simp only [hb]; rfl, ?_⟩
  have hentries := C.decodeEntries_hexText (entries.order (K.values h.provider).toList) ∅
  rw [foldl_insert_perm (entries.perm _)] at hentries
  obtain ⟨p, hp, hr⟩ :=
    restoreBytes_ok (h := (⟨h.localDid, p₀, ∅, ∅⟩ : MlsGroupHandler M)) hK hback hentries
  obtain rfl : h.provider = p := by
    rw [hK.withValues_values, hs.keypair] at hp
    exact Except.ok.inj hp
  rw [hr, hs.countP_groupIds ids]
  have hgroups := hs.restoreInPlace_groups ids ⟨h.localDid, p₀, ∅, ∅⟩ rfl
  have hdesync := hs.desync
  obtain ⟨did, provider, groups, desync⟩ := h
  subst hdesync
  exact congrArg (fun t => (Except.ok groups.size, MlsGroupHandler.mk did provider t ∅)) hgroups

end Stored

end MlsGroupHandler
end Variance
