import Variance.Spec.IdentityCache

/-! What the identity cache answers is the last value there is, and a day old at most, except where a copy in memory has
outlived the disk entry that it was promoted from. -/

namespace Variance

namespace UpperCache
variable {V : Type} {t : UpperCache V} {key k : String} {v : V} {now : ℕ}

theorem get_eq_some_iff : t.get key now = some v ↔ ∃ e, t[key]? = some e ∧ now ≤ e.expiresAt ∧ e.value = v := by
  unfold get CacheEntry.isExpired
  cases hkey : t[key]? with
  | none => simp
  | some e => simp

theorem get_evictExpired_some {e : CacheEntry V} (h : (t.evictExpired now)[k]? = some e) : t[k]? = some e := by
  unfold evictExpired at h
  rw [Std.ExtTreeMap.getElem?_filter', Option.filter_eq_some_iff] at h
  exact h.1

end UpperCache

namespace MultiLayerCache
variable {V : Type} {c : MultiLayerCache V} {f : DiskFaults} {key : String} {v : V} {now : ℕ}

/-- A read of the disk finds a live entry, or none, and may lose an expired one. -/
theorem l3Get_cases (c : MultiLayerCache V) (f : DiskFaults) (key : String) (now : ℕ) :
    (∃ e, c.l3[key]? = some e ∧ now / nanosPerSec < e.expiresAt ∧ c.l3Get f key now = (.ok (some e.value), c)) ∨
      (∀ v, (c.l3Get f key now).1 ≠ .ok (some v)) ∧
        ((c.l3Get f key now).2 = c ∨ (c.l3Get f key now).2 = { c with l3 := c.l3.erase key }) := by
  unfold l3Get
  by_cases hreads : f.reads = true
  · rw [if_pos hreads]
    exact Or.inr ⟨by simp, Or.inl rfl⟩
  · rw [if_neg hreads]
    cases hkey : c.l3[key]? with
    | none => exact Or.inr ⟨by simp, Or.inl rfl⟩
    | some e =>
      dsimp only
      split_ifs with hlive hremoves
      · exact Or.inl ⟨e, rfl, hlive, rfl⟩
      · exact Or.inr ⟨by simp, Or.inl rfl⟩
      · exact Or.inr ⟨by simp, Or.inr rfl⟩

theorem l3Remove_cases (c : MultiLayerCache V) (f : DiskFaults) (key : String) :
    f.removes = true ∧ c.l3Remove f key = c ∨ c.l3Remove f key = { c with l3 := c.l3.erase key } := by
  unfold l3Remove
  split_ifs with hremoves
  · exact Or.inl ⟨hremoves, rfl⟩
  · exact Or.inr rfl

/-- A get answers from the first layer that has a live entry, which goes into those above. -/
theorem get_cases (c : MultiLayerCache V) (f : DiskFaults) (key : String) (now : ℕ) :
    (∃ v, c.l1.get key now = some v ∧ c.get f key now = (.ok (some v), c)) ∨
    (∃ v, c.l1.get key now = none ∧ c.l2.get key now = some v ∧
      c.get f key now = (.ok (some v), c.l1Insert key v now)) ∨
    (∃ e, c.l1.get key now = none ∧ c.l2.get key now = none ∧ c.l3[key]? = some e ∧ now / nanosPerSec < e.expiresAt ∧
      (c.l3Get f key now).1 = .ok (some e.value) ∧
      c.get f key now = (.ok (some e.value), (c.l2Insert key e.value now).l1Insert key e.value now)) ∨
    c.l1.get key now = none ∧ c.l2.get key now = none ∧ (∀ v, (c.l3Get f key now).1 ≠ .ok (some v)) ∧
      (∀ v, (c.get f key now).1 ≠ .ok (some v)) ∧
      ((c.get f key now).2 = c ∨ (c.get f key now).2 = { c with l3 := c.l3.erase key }) := by
  unfold get
  cases h1 : c.l1.get key now with
  | some v => exact Or.inl ⟨v, rfl, rfl⟩
  | none =>
    cases h2 : c.l2.get key now with
    | some v => exact Or.inr (Or.inl ⟨v, rfl, rfl, rfl⟩)
    | none =>
      rcases l3Get_cases c f key now with ⟨e, he, hlive, heq⟩ | ⟨hmiss, hrest⟩
      · rw [heq]
        exact Or.inr (Or.inr (Or.inl ⟨e, rfl, rfl, he, hlive, rfl, rfl⟩))
      · refine Or.inr (Or.inr (Or.inr ⟨rfl, rfl, hmiss, ?_⟩))
        rcases hr : c.l3Get f key now with ⟨_ | _ | v, c'⟩
        · rw [hr] at hrest
          exact ⟨by simp, hrest⟩
        · rw [hr] at hrest
          exact ⟨by simp, hrest⟩
        · rw [hr] at hmiss
          exact absurd rfl (hmiss v)

end MultiLayerCache

namespace CacheWorld
open MultiLayerCache
variable {V : Type} {w : CacheWorld V} {key k : String}

/-- No insert of the key that completed is later than the value's. -/
def Latest (w : CacheWorld V) (key : String) (v : Stamped V) : Prop := ∀ n, w.completed key = some n → n ≤ v.serial

/-- An entry in memory expires some time after its value was inserted, if it does not come from the disk, and the disk
entry that it comes from expires a day after. -/
def Timely (v : Stamped V) (expiresAt lifetime : ℕ) : Option ℕ → Prop
  | none => expiresAt ≤ v.inserted + lifetime
  | some source => source * nanosPerSec ≤ v.inserted + l3Ttl * nanosPerSec

structure Inv (w : CacheWorld V) : Prop where
  counted : ∀ key n, w.completed key = some n → n < w.inserts
  l1 : ∀ (key : String) e, w.cache.l1[key]? = some e →
    w.Latest key e.value ∧ Timely e.value e.expiresAt (l2Ttl + l1Ttl) (w.l1Source key)
  l2 : ∀ (key : String) e, w.cache.l2[key]? = some e →
    w.Latest key e.value ∧ Timely e.value e.expiresAt l2Ttl (w.l2Source key)
  l3 : ∀ (key : String) e, w.cache.l3[key]? = some e →
    w.Latest key e.value ∧ e.expiresAt * nanosPerSec ≤ e.value.inserted + l3Ttl * nanosPerSec

/-- A step that takes entries away at most. -/
theorem Inv.fewer {cache : MultiLayerCache (Stamped V)} (h : w.Inv)
    (h1 : ∀ (key : String) e, cache.l1[key]? = some e → w.cache.l1[key]? = some e)
    (h2 : ∀ (key : String) e, cache.l2[key]? = some e → w.cache.l2[key]? = some e)
    (h3 : ∀ (key : String) e, cache.l3[key]? = some e → w.cache.l3[key]? = some e) : Inv { w with cache } where
  counted := h.counted
  l1 key e he := h.l1 key e (h1 key e he)
  l2 key e he := h.l2 key e (h2 key e he)
  l3 key e he := h.l3 key e (h3 key e he)

theorem get_erase_of_some {β : Type} {t : SledTree β} {e : β} (h : (t.erase key)[k]? = some e) : t[k]? = some e := by
  rw [get_erase] at h
  split_ifs at h
  exact h

theorem get_insert_some {β : Type} {t : SledTree β} {e e' : β} (h : (t.insert key e')[k]? = some e) :
    k = key ∧ e = e' ∨ k ≠ key ∧ t[k]? = some e := by
  rw [get_insert] at h
  split_ifs at h with hk
  · exact Or.inl ⟨hk.symm, (Option.some.inj h).symm⟩
  · exact Or.inr ⟨Ne.symm hk, h⟩

theorem timely_promoted {v : Stamped V} {expiresAt now : ℕ} {source : Option ℕ} (h : Timely v expiresAt l2Ttl source)
    (hlive : now ≤ expiresAt) : Timely v (now + l1Ttl) (l2Ttl + l1Ttl) source := by
  cases source with
  | none =>
    have hexpires : expiresAt ≤ v.inserted + l2Ttl := h
    show now + l1Ttl ≤ v.inserted + (l2Ttl + l1Ttl)
    omega
  | some source => exact h

/-- What memory promotes is what it has, with its source. -/
theorem Inv.promote_l2 (h : w.Inv) {v : Stamped V} (hget : w.cache.l2.get key w.now = some v) :
    Inv { w with
      cache := w.cache.l1Insert key v w.now
      l1Source := fun k => if k = key then w.l2Source key else w.l1Source k } where
  counted := h.counted
  l1 k e he := by
    obtain ⟨e2, he2, hlive, rfl⟩ := UpperCache.get_eq_some_iff.1 hget
    dsimp only
    obtain ⟨rfl, rfl⟩ | ⟨hk, hold⟩ := get_insert_some he
    · rw [if_pos rfl]
      exact ⟨(h.l2 k e2 he2).1, timely_promoted (h.l2 k e2 he2).2 hlive⟩
    · rw [if_neg hk]
      exact h.l1 k e hold
  l2 := h.l2
  l3 := h.l3

theorem Inv.promote_l3 (h : w.Inv) {e3 : DiskEntry (Stamped V)} (hget : w.cache.l3[key]? = some e3) :
    Inv { w with
      cache := (w.cache.l2Insert key e3.value w.now).l1Insert key e3.value w.now
      l1Source := fun k => if k = key then some e3.expiresAt else w.l1Source k
      l2Source := fun k => if k = key then some e3.expiresAt else w.l2Source k } where
  counted := h.counted
  l1 k e he := by
    dsimp only
    obtain ⟨rfl, rfl⟩ | ⟨hk, hold⟩ := get_insert_some he
    · rw [if_pos rfl]
      exact h.l3 k e3 hget
    · rw [if_neg hk]
      exact h.l1 k e hold
  l2 k e he := by
    dsimp only
    obtain ⟨rfl, rfl⟩ | ⟨hk, hold⟩ := get_insert_some he
    · rw [if_pos rfl]
      exact h.l3 k e3 hget
    · rw [if_neg hk]
      exact h.l2 k e hold
  l3 := h.l3

theorem promote_miss {f : DiskFaults} (h1 : w.cache.l1.get key w.now = none) (h2 : w.cache.l2.get key w.now = none)
    (hmiss : ∀ v, (w.cache.l3Get f key w.now).1 ≠ .ok (some v)) : w.promote f key = w := by
  unfold promote
  rw [h1, h2]
  dsimp only
  split
  next v hv => exact absurd hv (hmiss v)
  next => rfl

theorem Inv.get (h : w.Inv) (f : DiskFaults) (key : String) : (w.step (.get f key)).Inv := by
  show Inv { w.promote f key with cache := (w.cache.get f key w.now).2 }
  rcases get_cases w.cache f key w.now with ⟨v, h1, heq⟩ | ⟨v, h1, h2, heq⟩ | ⟨e, h1, h2, h3, -, hhit, heq⟩ |
    ⟨h1, h2, hmiss, -, heq⟩
  · unfold promote
    rw [h1, heq]
    exact h
  · unfold promote
    rw [h1, h2, heq]
    exact h.promote_l2 h2
  · unfold promote
    rw [h1, h2, hhit, heq, h3]
    exact h.promote_l3 h3
  · rw [promote_miss h1 h2 hmiss]
    rcases heq with heq | heq
    · rw [heq]
      exact h
    · rw [heq]
      exact h.fewer (fun _ _ => id) (fun _ _ => id) fun _ _ he => get_erase_of_some he

/-- A new value goes into memory; what is on disk, and what has completed, is known otherwise. -/
theorem Inv.store (h : w.Inv) (value : V) {l3 : SledTree (DiskEntry (Stamped V))} {completed : String → Option ℕ}
    (hcounted : ∀ k n, completed k = some n → n ≤ w.inserts) (hother : ∀ k, k ≠ key → completed k = w.completed k)
    (hdisk : ∀ (k : String) e, l3[k]? = some e → (∀ n, completed k = some n → n ≤ e.value.serial) ∧
      e.expiresAt * nanosPerSec ≤ e.value.inserted + l3Ttl * nanosPerSec) :
    Inv { w with
      cache :=
        { l1 := w.cache.l1.insert key (.new ⟨value, w.inserts, w.now⟩ l1Ttl w.now)
          l2 := w.cache.l2.insert key (.new ⟨value, w.inserts, w.now⟩ l2Ttl w.now)
          l3 }
      inserts := w.inserts + 1
      completed
      l1Source := fun k => if k = key then none else w.l1Source k
      l2Source := fun k => if k = key then none else w.l2Source k } where
  counted k n hn := Nat.lt_succ_of_le (hcounted k n hn)
  l1 k e he := by
    dsimp only at he ⊢
    obtain ⟨rfl, rfl⟩ | ⟨hk, hold⟩ := get_insert_some he
    · rw [if_pos rfl]
      refine ⟨fun n hn => hcounted k n hn, ?_⟩
      show w.now + l1Ttl ≤ w.now + (l2Ttl + l1Ttl)
      omega
    · rw [if_neg hk]
      obtain ⟨hlatest, htimely⟩ := h.l1 k e hold
      exact ⟨fun n hn => hlatest n ((hother k hk).symm.trans hn), htimely⟩
  l2 k e he := by
    dsimp only at he ⊢
    obtain ⟨rfl, rfl⟩ | ⟨hk, hold⟩ := get_insert_some he
    · rw [if_pos rfl]
      exact ⟨fun n hn => hcounted k n hn, le_rfl⟩
    · rw [if_neg hk]
      obtain ⟨hlatest, htimely⟩ := h.l2 k e hold
      exact ⟨fun n hn => hlatest n ((hother k hk).symm.trans hn), htimely⟩
  l3 := hdisk

/-- The disk entry of a value expires within a day, by whole seconds. -/
theorem seconds_le (now : ℕ) : (now / nanosPerSec + l3Ttl) * nanosPerSec ≤ now + l3Ttl * nanosPerSec := by
  rw [Nat.add_mul]
  exact Nat.add_le_add_right (Nat.div_mul_le_self now nanosPerSec) _

theorem Inv.insert (h : w.Inv) (f : DiskFaults) (verified : Bool) (key : String) (value : V) :
    (w.step (.insert f verified key value)).Inv := by
  cases verified with
  | false => exact h
  | true =>
    unfold step MultiLayerCache.insert l3Insert
    by_cases hfails : f.inserts = true
    · simp only [hfails, reduceCtorEq, if_false, if_true]
      exact h.store value (fun k n hn => (h.counted k n hn).le) (fun _ _ => rfl) h.l3
    · simp only [hfails, reduceCtorEq, if_false, if_true]
      refine h.store value (fun k n hn => ?_) (fun k hk => if_neg hk) fun k e he => ?_
      · split_ifs at hn
        · exact (Option.some.inj hn).ge
        · exact (h.counted k n hn).le
      · obtain ⟨rfl, rfl⟩ | ⟨hk, hold⟩ := get_insert_some he
        · refine ⟨fun n hn => ?_, seconds_le w.now⟩
          rw [if_pos rfl] at hn
          exact (Option.some.inj hn).ge
        · rw [if_neg hk]
          exact h.l3 k e hold

theorem Inv.step (h : w.Inv) (e : Step V) : (w.step e).Inv := by
  cases e with
  | get f key => exact h.get f key
  | insert f verified key value => exact h.insert f verified key value
  | remove f key =>
    let cache : MultiLayerCache (Stamped V) :=
      { w.cache with l1 := w.cache.l1.erase key, l2 := w.cache.l2.erase key }
    show Inv { w with cache := cache.l3Remove f key }
    rcases l3Remove_cases cache f key with ⟨-, heq⟩ | heq
    · rw [heq]
      exact h.fewer (fun _ _ => get_erase_of_some) (fun _ _ => get_erase_of_some) fun _ _ => id
    · rw [heq]
      exact h.fewer (fun _ _ => get_erase_of_some) (fun _ _ => get_erase_of_some) fun _ _ => get_erase_of_some
  | evictExpired stays =>
    refine h.fewer (fun k e he => UpperCache.get_evictExpired_some he)
      (fun k e he => UpperCache.get_evictExpired_some he) fun k e he => ?_
    change (w.cache.l3.filter _)[k]? = some e at he
    rw [Std.ExtTreeMap.getElem?_filter', Option.filter_eq_some_iff] at he
    exact he.1
  | restart =>
    refine h.fewer (fun k e he => ?_) (fun k e he => ?_) fun _ _ => id
    · simp [restart] at he
    · simp [restart] at he
  | advance elapsed => exact ⟨h.counted, h.l1, h.l2, h.l3⟩

theorem inv_init (hw : (cacheSys V).init w) : w.Inv := by
  obtain ⟨hcache, hcompleted⟩ := hw
  refine ⟨fun key n hn => ?_, fun key e he => ?_, fun key e he => ?_, fun key e he => ?_⟩
  · rw [hcompleted] at hn
    cases hn
  · simp [hcache, MultiLayerCache.empty] at he
  · simp [hcache, MultiLayerCache.empty] at he
  · simp [hcache, MultiLayerCache.empty] at he

/-! What a get answers -/

/-- The entry that a get is answered by is live in its layer, and the layers above have none. -/
theorem answer_cases {f : DiskFaults} {v : Stamped V} (hv : w.answer f key = .ok (some v)) :
    (∃ e, w.cache.l1.get key w.now ≠ none ∧ w.cache.l1[key]? = some e ∧ w.now ≤ e.expiresAt ∧ e.value = v) ∨
    (∃ e, w.cache.l1.get key w.now = none ∧ w.cache.l2.get key w.now ≠ none ∧ w.cache.l2[key]? = some e ∧
      w.now ≤ e.expiresAt ∧ e.value = v) ∨
    ∃ e, w.cache.l3[key]? = some e ∧ w.now / nanosPerSec < e.expiresAt ∧ e.value = v := by
  unfold answer at hv
  rcases get_cases w.cache f key w.now with ⟨u, h1, heq⟩ | ⟨u, h1, h2, heq⟩ | ⟨e, h1, h2, h3, hlive, -, heq⟩ |
    ⟨-, -, -, hmiss, -⟩
  · rw [heq] at hv
    obtain rfl : u = v := by simpa using hv
    obtain ⟨e, he, hlive, hvalue⟩ := UpperCache.get_eq_some_iff.1 h1
    exact Or.inl ⟨e, by rw [h1]; simp, he, hlive, hvalue⟩
  · rw [heq] at hv
    obtain rfl : u = v := by simpa using hv
    obtain ⟨e, he, hlive, hvalue⟩ := UpperCache.get_eq_some_iff.1 h2
    exact Or.inr (Or.inl ⟨e, h1, by rw [h2]; simp, he, hlive, hvalue⟩)
  · rw [heq] at hv
    exact Or.inr (Or.inr ⟨e, h3, hlive, by simpa using hv⟩)
  · exact absurd hv (hmiss v)

theorem Timely.within {v : Stamped V} {expiresAt lifetime now : ℕ} {source : Option ℕ}
    (h : Timely v expiresAt lifetime source) (hlifetime : lifetime ≤ l3Ttl * nanosPerSec) (hlive : now ≤ expiresAt)
    (hsource : ∀ x, source = some x → now / nanosPerSec < x) : now ≤ v.inserted + l3Ttl * nanosPerSec := by
  cases source with
  | none =>
    have hexpires : expiresAt ≤ v.inserted + lifetime := h
    omega
  | some x =>
    have hday : x * nanosPerSec ≤ v.inserted + l3Ttl * nanosPerSec := h
    have hnow : now < x * nanosPerSec := (Nat.div_lt_iff_lt_mul (by decide)).1 (hsource x rfl)
    omega

theorem Inv.withinTtl (h : w.Inv) {e : Step V} (hsourced : w.Sourced e) : w.WithinTtl e := by
  cases e with
  | get f key =>
    intro v hv
    obtain ⟨hfirst, hsecond⟩ := hsourced
    rcases answer_cases hv with ⟨e, h1, he, hlive, rfl⟩ | ⟨e, h1, h2, he, hlive, rfl⟩ | ⟨e, he, hlive, rfl⟩
    · exact (h.l1 key e he).2.within (by decide) hlive (hfirst h1)
    · exact (h.l2 key e he).2.within (by decide) hlive (hsecond h1 h2)
    · have hday := (h.l3 key e he).2
      have hnow : w.now < e.expiresAt * nanosPerSec := (Nat.div_lt_iff_lt_mul (by decide)).1 hlive
      omega
  | insert f verified key value => trivial
  | remove f key => trivial
  | evictExpired stays => trivial
  | restart => trivial
  | advance elapsed => trivial

theorem Inv.current (h : w.Inv) (e : Step V) : w.Current e := by
  cases e with
  | get f key =>
    intro v n hv hn
    rcases answer_cases hv with ⟨e, -, he, -, rfl⟩ | ⟨e, -, -, he, -, rfl⟩ | ⟨e, he, -, rfl⟩
    · exact (h.l1 key e he).1 n hn
    · exact (h.l2 key e he).1 n hn
    · exact (h.l3 key e he).1 n hn
  | insert f verified key value => trivial
  | remove f key => trivial
  | evictExpired stays => trivial
  | restart => trivial
  | advance elapsed => trivial

end CacheWorld

namespace CacheFreshness
open StepSystem CacheWorld

/-- In every run from an empty cache: while no get is answered by a promoted copy that has outlived its disk entry, no
get is answered by what was inserted more than a day ago; and in any case none by less than the last insert of the key
that completed. -/
theorem answers_fresh (V : Type) (w : CacheWorld V) (hw : (cacheSys V).init w) (es : List (Step V)) :
    (Guarded (cacheSys V) Sourced w es → Guarded (cacheSys V) WithinTtl w es) ∧ Guarded (cacheSys V) Current w es := by
  have hinv : w.Inv := inv_init hw
  constructor
  · exact Guarded.imp (fun w e h hsourced => h.withinTtl hsourced) (fun w e h _ => h.step e) hinv
  · exact Guarded.imp (fun w e h _ => h.current e) (fun w e h _ => h.step e) hinv (guarded_true w es)

def sound : DiskFaults := ⟨false, false, false⟩

def start : CacheWorld ℕ := ⟨.empty, 0, 0, fun _ => none, fun _ => none, fun _ => none⟩

/-- A value is inserted and asked for. -/
theorem answers_fresh_once : Guarded (cacheSys ℕ) WithinTtl start [.insert sound true "did:b" 7, .get sound "did:b"] := by
  refine (answers_fresh ℕ start ⟨rfl, rfl⟩ _).1 ⟨trivial, ⟨fun _ x hx => ?_, fun h1 => ?_⟩, trivial⟩
  · have hsource : ((cacheSys ℕ).step start (.insert sound true "did:b" 7)).l1Source "did:b" = none := by decide +kernel
    rw [hsource] at hx
    cases hx
  · exact absurd h1 (by decide +kernel)

/-- A second before its disk entry expires, it is promoted, and found again half an hour later. -/
def promotedLate : List (Step ℕ) :=
  [.insert sound true "did:b" 7, .advance (86399 * nanosPerSec), .get sound "did:b", .advance (1800 * nanosPerSec),
    .get sound "did:b"]

theorem promoted_outlives : ¬ ∀ (w : CacheWorld ℕ) (es : List (Step ℕ)), (cacheSys ℕ).init w →
    Guarded (cacheSys ℕ) WithinTtl w es ∧ Guarded (cacheSys ℕ) Current w es := by
  intro h
  obtain ⟨-, -, -, -, hlast, -⟩ := (h start promotedLate ⟨rfl, rfl⟩).1
  have hday := hlast ⟨7, 0, 0⟩ (by decide +kernel)
  exact absurd hday (by decide +kernel)

end CacheFreshness
end Variance
