import Mathlib.Data.Set.Basic
import Mathlib.Tactic.Common

/-! A cache kept by name beside a table kept by key. It is covered when each name in it is the name of something in the
table; what a step may take from the table without uncovering it. -/

namespace CacheCover

variable {κ ι μ ν : Type*} (name : μ → ι)

def Covered (table : κ → Option μ) (cache : ι → Option ν) : Prop :=
  ∀ i, cache i ≠ none → ∃ k m, table k = some m ∧ name m = i

/-- Of what is taken, everything in the cache is dropped from it, or has a namesake that stays. -/
def Spares (table : κ → Option μ) (cache : ι → Option ν) (taken : Set κ) (dropped : Set ι) : Prop :=
  ∀ k ∈ taken, ∀ m, table k = some m → cache (name m) ≠ none →
    name m ∈ dropped ∨ ∃ k' m', k' ∉ taken ∧ table k' = some m' ∧ name m' = name m

/-- A step that takes some keys from the table and some names from the cache. -/
structure Takes (table table' : κ → Option μ) (cache cache' : ι → Option ν) (taken : Set κ) (dropped : Set ι) :
    Prop where
  kept : ∀ k ∉ taken, table' k = table k
  gone : ∀ k ∈ taken, table' k = none
  cached : ∀ i ∉ dropped, cache' i = cache i
  uncached : ∀ i ∈ dropped, cache' i = none

variable {name} {table table' : κ → Option μ} {cache cache' : ι → Option ν} {taken : Set κ} {dropped : Set ι}

theorem Takes.covered_iff (h : Takes table table' cache cache' taken dropped) (hc : Covered name table cache) :
    Covered name table' cache' ↔ Spares name table cache taken dropped := by
  constructor
  · intro hc' k hk m hm hcached
    by_cases hd : name m ∈ dropped
    · exact Or.inl hd
    · obtain ⟨k', m', hm', hname⟩ := hc' (name m) (by rwa [h.cached _ hd])
      have hstay : k' ∉ taken := fun ht => by
        rw [h.gone k' ht] at hm'
        cases hm'
      rw [h.kept k' hstay] at hm'
      exact Or.inr ⟨k', m', hstay, hm', hname⟩
  · intro hs i hi
    have hd : i ∉ dropped := fun hd => hi (h.uncached i hd)
    rw [h.cached i hd] at hi
    obtain ⟨k, m, hm, rfl⟩ := hc i hi
    by_cases hk : k ∈ taken
    · rcases hs k hk m hm hi with hd' | ⟨k', m', hk', hm', hname⟩
      · exact (hd hd').elim
      · exact ⟨k', m', by rwa [h.kept k' hk'], hname⟩
    · exact ⟨k, m, by rwa [h.kept k hk], rfl⟩

/-- Putting something in the table takes what lay there under another name. -/
theorem put_covered_iff {k : κ} {m : μ} (hput : table' k = some m) (hother : ∀ k', k' ≠ k → table' k' = table k')
    (hc : Covered name table cache) : Covered name table' cache ↔
      Spares name table cache {k' | k' = k ∧ ∀ x, table k = some x → name x ≠ name m} ∅ := by
  constructor
  · intro hc' j hj old hold hcached
    obtain ⟨rfl, hdiff⟩ := hj
    obtain ⟨k1, m1, hm1, hname⟩ := hc' (name old) hcached
    by_cases hk : k1 = j
    · subst hk
      rw [hput] at hm1
      obtain rfl := Option.some.inj hm1
      exact (hdiff old hold hname.symm).elim
    · rw [hother k1 hk] at hm1
      exact Or.inr ⟨k1, m1, fun h => hk h.1, hm1, hname⟩
  · intro hs i hi
    obtain ⟨k1, m1, hm1, rfl⟩ := hc i hi
    by_cases hk : k1 = k
    · subst hk
      by_cases hname : name m1 = name m
      · exact ⟨k1, m, hput, hname.symm⟩
      · have hdiff : ∀ x, table k1 = some x → name x ≠ name m := fun x hx => by
          rw [hm1] at hx
          rwa [← Option.some.inj hx]
        rcases hs k1 ⟨rfl, hdiff⟩ m1 hm1 hi with hd | ⟨k2, m2, hk2, hm2, hname2⟩
        · exact (Set.notMem_empty _ hd).elim
        · have hne : k2 ≠ k1 := fun h => hk2 ⟨h, hdiff⟩
          exact ⟨k2, m2, by rwa [hother k2 hne], hname2⟩
    · exact ⟨k1, m1, by rwa [hother k1 hk], rfl⟩

/-- Caching what the table has uncovers nothing. -/
theorem Covered.caching {k : κ} {m : μ} (hc : Covered name table cache) (hm : table k = some m)
    (hother : ∀ i, i ≠ name m → cache' i = cache i) : Covered name table cache' := by
  intro i hi
  by_cases h : i = name m
  · exact ⟨k, m, hm, h.symm⟩
  · exact hc i (by rwa [← hother i h])

/-- Where nothing is taken there is nothing to spare. -/
theorem spares_empty (dropped : Set ι) : Spares name table cache ∅ dropped := fun _ hk => (Set.notMem_empty _ hk).elim

end CacheCover
