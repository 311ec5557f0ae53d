import Variance.Sanity.Names

/-! The two caches of the username registry say the same, and a call that fails changes neither, exactly as long as
no call is forced on a name that is somebody's. -/

namespace Variance
namespace UsernameRegistry

variable {U : Unicode} {r : UsernameRegistry} {name : String} {disc : UInt32} {did : Did}

theorem nameKey_injective : Function.Injective nameKey := by
  rintro ⟨name, disc⟩ ⟨name', disc'⟩ h
  have hsplit : ∀ (n : String) (d : UInt32),
      Text.rsplitOnce '#' (nameKey (n, d)) = some (n, Text.padded 0 d.toNat) := by
    intro n d
    refine Text.rsplitOnce_append fun hmem => ?_
    have hdigit := Text.isDigit_padded hmem
    simp at hdigit
  have heq := hsplit name disc
  rw [h, hsplit name' disc'] at heq
  obtain ⟨hname, hpad⟩ := Prod.mk.inj (Option.some.inj heq)
  have hdisc := Text.parseU32_padded 0 disc
  rw [← hpad, Text.parseU32_padded] at hdisc
  rw [hname, Option.some.inj hdisc]

theorem bijective_iff : r.Bijective ↔ r.dir.Paired nameKey :=
  ⟨fun h n a => h n.1 n.2 a, fun h name disc did => h (name, disc) did⟩

theorem evict_of_none (h : r.reverseCache[did]? = none) : r.evict did = r := by
  unfold evict
  rw [h]

theorem evict_name : (r.evict did).reverseCache[did]? = none := by
  have hname : (r.dir.drop nameKey did).name = Function.update r.dir.name did none := Directory.drop_name
  have h := congrFun hname did
  rw [← dir_evict, Function.update_self] at h
  exact h

/-- A registry that an eviction leaves as it was had no name to give up. -/
theorem name_of_evict (h : r.evict did = r) : r.reverseCache[did]? = none := by
  rw [← h]
  exact evict_name

/-- After the eviction a key is free just when it was free or the did's own. -/
theorem isFree_evict_iff (h : r.Bijective) : (r.evict did).isFree name disc = true ↔ r.Available name disc did := by
  have hp := bijective_iff.1 h
  unfold isFree
  rw [Option.isNone_iff_eq_none]
  change (r.evict did).dir.owner (nameKey (name, disc)) = none ↔ r.dir.Open nameKey (name, disc) did
  rw [dir_evict]
  refine ⟨fun hfree b hb => ?_, hp.owner_drop⟩
  by_contra hne
  rw [Directory.drop_owner_other hp.covers hb hne] at hfree
  cases hfree

theorem atomic_cacheMapping (h : r.Bijective) (username : String) :
    r.Atomic U (.cacheMapping username disc did) ↔ r.Available (U.toLowercase username) disc did := by
  have hload := (bijective_iff.1 h).load_iff (n := (U.toLowercase username, disc)) (a := did) nameKey_injective
  rw [← dir_cacheMapping, ← bijective_iff] at hload
  exact ⟨fun ha => hload.1 ha.1, fun ha => ⟨hload.2 ha, fun e he => by cases he⟩⟩

theorem atomic_registerWithDiscriminator (h : r.Bijective) (username : String) :
    r.Atomic U (.registerWithDiscriminator username disc did) ↔
      (r.isFree (U.toLowercase username) disc = true → r.reverseCache[did]? = none) := by
  unfold Atomic call registerWithDiscriminator
  dsimp only
  split_ifs with hfree
  · have hgive := (bijective_iff.1 h).give_iff (n := (U.toLowercase username, disc)) (a := did) nameKey_injective
    rw [← dir_insert, ← bijective_iff] at hgive
    have howner : r.dir.owner (nameKey (U.toLowercase username, disc)) = none := owner_of_isFree hfree
    constructor
    · intro ha _
      rcases hgive.1 ha.1 with hsome | ⟨hnone, -⟩
      · rw [((bijective_iff.1 h) _ _).2 hsome] at howner
        cases howner
      · exact hnone
    · intro ha
      exact ⟨hgive.2 (Or.inr ⟨ha hfree, howner⟩), fun e he => by cases he⟩
  · exact ⟨fun _ hf => absurd hf hfree, fun _ => ⟨h, fun _ _ => rfl⟩⟩

/-! What a local registration comes to: an invalid name, a discriminator that is found, or none. -/

theorem registerLocal_invalid {username : String} {e : IdentityError} (draws : List UInt32)
    (hv : validateUsername U username = .error e) : r.registerLocal U username did draws = (.error e, r) := by
  unfold registerLocal
  rw [hv]

theorem registerLocal_found {username : String} {draws : List UInt32} (hv : validateUsername U username = .ok ())
    (hf : (draws.take maxDiscriminatorAttempts).find? ((r.evict did).isFree (U.toLowercase username)) = some disc) :
    r.registerLocal U username did draws =
      (.ok (U.toLowercase username, disc), (r.evict did).insert (U.toLowercase username) disc did) := by
  unfold registerLocal
  rw [hv]
  dsimp only
  rw [hf]

theorem registerLocal_none {username : String} {draws : List UInt32} (hv : validateUsername U username = .ok ())
    (hf : (draws.take maxDiscriminatorAttempts).find? ((r.evict did).isFree (U.toLowercase username)) = none) :
    ∃ e, r.registerLocal U username did draws = (.error e, r.evict did) := by
  unfold registerLocal
  rw [hv]
  dsimp only
  rw [hf]
  exact ⟨_, rfl⟩

theorem getUsername_insert : (r.insert name disc did).getUsername did = some (name, disc) := by
  unfold insert getUsername
  dsimp only
  rw [get_insert, if_pos rfl]

/-- A name that is taken is in lower case. -/
theorem registerLocal_ok {registry : UsernameRegistry} {username : String} {draws : List UInt32}
    (h : r.registerLocal U username did draws = (.ok (name, disc), registry)) :
    validateUsername U username = .ok () ∧ U.toLowercase username = name ∧
      registry.getUsername did = some (name, disc) := by
  cases hv : validateUsername U username with
  | error e =>
    rw [registerLocal_invalid draws hv] at h
    cases h
  | ok u =>
    cases hf : (draws.take maxDiscriminatorAttempts).find? ((r.evict did).isFree (U.toLowercase username)) with
    | none =>
      obtain ⟨e, he⟩ := registerLocal_none hv hf
      rw [he] at h
      cases h
    | some disc' =>
      rw [registerLocal_found hv hf] at h
      cases h
      exact ⟨rfl, rfl, getUsername_insert⟩

/-- Where no discriminator is found the old name has gone. -/
theorem registerLocal_error {registry : UsernameRegistry} {username : String} {draws : List UInt32} {e : IdentityError}
    (hv : validateUsername U username = .ok ())
    (h : r.registerLocal U username did draws = (.error e, registry)) : registry.getUsername did = none := by
  cases hf : (draws.take maxDiscriminatorAttempts).find? ((r.evict did).isFree (U.toLowercase username)) with
  | none =>
    obtain ⟨e', he⟩ := registerLocal_none hv hf
    rw [he] at h
    cases h
    exact evict_name
  | some disc' =>
    rw [registerLocal_found hv hf] at h
    cases h

theorem atomic_registerLocal (h : r.Bijective) (username : String) (draws : List UInt32) :
    r.Atomic U (.registerLocal username did draws) ↔ (validateUsername U username = .ok () →
      (∃ disc ∈ draws.take maxDiscriminatorAttempts, r.Available (U.toLowercase username) disc did) ∨
        r.reverseCache[did]? = none) := by
  have hevict : (r.evict did).Bijective := by
    rw [bijective_iff, dir_evict]
    exact (bijective_iff.1 h).drop nameKey_injective
  unfold Atomic call
  dsimp only
  cases hv : validateUsername U username with
  | error e =>
    rw [registerLocal_invalid draws hv]
    exact iff_of_true ⟨h, fun _ _ => rfl⟩ fun hok => by cases hok
  | ok u =>
    cases hfind : (draws.take maxDiscriminatorAttempts).find? ((r.evict did).isFree (U.toLowercase username)) with
    | some disc =>
      rw [registerLocal_found hv hfind]
      have hfree : (r.evict did).isFree (U.toLowercase username) disc = true := List.find?_some hfind
      have hdisc : disc ∈ draws.take maxDiscriminatorAttempts := List.mem_of_find?_eq_some hfind
      have hgive := (bijective_iff.1 hevict).give_iff (n := (U.toLowercase username, disc)) (a := did) nameKey_injective
      rw [← dir_insert, ← bijective_iff] at hgive
      exact iff_of_true ⟨hgive.2 (Or.inr ⟨evict_name, owner_of_isFree hfree⟩), fun e he => by cases he⟩
        fun _ => Or.inl ⟨disc, hdisc, (isFree_evict_iff h).1 hfree⟩
    | none =>
      obtain ⟨e, he⟩ := registerLocal_none hv hfind
      rw [he]
      have hnone := List.find?_eq_none.1 hfind
      constructor
      · intro ha _
        exact Or.inr (name_of_evict (ha.2 e rfl))
      · intro hc
        refine ⟨hevict, fun _ _ => ?_⟩
        rcases hc rfl with ⟨disc, hdisc, hav⟩ | hname
        · exact absurd ((isFree_evict_iff h).2 hav) (hnone disc hdisc)
        · exact evict_of_none hname

theorem atomic_iff (h : r.Bijective) (c : RegistryCall) : r.Atomic U c ↔ r.Unforced U c := by
  cases c with
  | registerLocal username did draws => exact atomic_registerLocal h username draws
  | registerWithDiscriminator username disc did => exact atomic_registerWithDiscriminator h username
  | cacheMapping username disc did => exact atomic_cacheMapping h username

theorem bijective_new : new.Bijective := by
  rw [bijective_iff, dir_new]
  exact .empty

/-- In every run of the registry each call keeps the caches in step, and changes nothing when it fails, just when no
call is forced. -/
theorem registry_atomic (U : Unicode) (calls : List RegistryCall) :
    StepSystem.Guarded (registrySys U) (Atomic U) new calls ↔
      StepSystem.Guarded (registrySys U) (Unforced U) new calls :=
  StepSystem.guarded_iff (I := Bijective) (fun _ c h => atomic_iff h c) (fun _ c h hc => ((atomic_iff h c).2 hc).1)
    bijective_new calls

/-- Two dids are cached under one name: both are called by it, and only the second is found. -/
theorem mapping_displaced : ∃ (U : Unicode) (calls : List RegistryCall),
    (calls.foldl (registrySys U).step new).getUsername "did:a" = some ("bob", 1) ∧
      (calls.foldl (registrySys U).step new).getUsername "did:b" = some ("bob", 1) ∧
      (calls.foldl (registrySys U).step new).lookupExact U "bob" 1 = some "did:b" ∧
      ¬ (calls.foldl (registrySys U).step new).Bijective := by
  refine ⟨⟨id, Char.isAlphanum⟩, [.cacheMapping "bob" 1 "did:a", .cacheMapping "bob" 1 "did:b"],
    by decide, by decide, by decide, fun h => ?_⟩
  have ha := (h "bob" 1 "did:a").2 (by decide)
  have hb := (h "bob" 1 "did:b").2 (by decide)
  rw [hb] at ha
  exact absurd ha (by decide)

end UsernameRegistry
end Variance
