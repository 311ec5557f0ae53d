import Mathlib.Data.Finset.Card
import Mathlib.Tactic.Common

/-! A map that is gone through in the order in which its keys came. A key that is set again keeps its place. -/

structure InsertionMap (κ ν : Type*) where
  entries : List (κ × ν)
  nodup : (entries.map Prod.fst).Nodup

namespace InsertionMap

variable {κ ν μ : Type*} [DecidableEq κ]

instance : EmptyCollection (InsertionMap κ ν) := ⟨⟨[], List.nodup_nil⟩⟩

def get (m : InsertionMap κ ν) (k : κ) : Option ν := (m.entries.find? fun e => e.1 = k).map Prod.snd

omit [DecidableEq κ] in
theorem nodup_concat {l : List (κ × ν)} {k : κ} {v : ν} (h : (l.map Prod.fst).Nodup) (hk : k ∉ l.map Prod.fst) :
    ((l ++ [(k, v)]).map Prod.fst).Nodup := by
  rw [List.map_append, List.map_singleton, List.nodup_append_comm, List.singleton_append, List.nodup_cons]
  exact ⟨hk, h⟩

theorem map_fst_replace {l : List (κ × ν)} {k : κ} {v : ν} :
    (l.map fun e => if e.1 = k then (k, v) else e).map Prod.fst = l.map Prod.fst := by
  rw [List.map_map]
  refine List.map_congr_left fun e _ => ?_
  rw [Function.comp_apply]
  split_ifs with h
  · exact h.symm
  · rfl

def set (m : InsertionMap κ ν) (k : κ) (v : ν) : InsertionMap κ ν :=
  if h : k ∈ m.entries.map Prod.fst then
    ⟨m.entries.map fun e => if e.1 = k then (k, v) else e, by rw [map_fst_replace]; exact m.nodup⟩
  else ⟨m.entries ++ [(k, v)], nodup_concat m.nodup h⟩

def delete (m : InsertionMap κ ν) (k : κ) : InsertionMap κ ν :=
  ⟨m.entries.filter fun e => e.1 ≠ k, m.nodup.sublist (List.filter_sublist.map _)⟩

omit [DecidableEq κ] in
theorem map_fst_filterMap {l : List (κ × ν)} {f : κ → ν → Option μ} :
    ((l.filterMap fun e => (f e.1 e.2).map fun v => (e.1, v)).map Prod.fst).Sublist (l.map Prod.fst) := by
  induction l with
  | nil => exact List.Sublist.slnil
  | cons e l ih =>
    rw [List.filterMap_cons]
    cases f e.1 e.2 with
    | none => exact ih.cons _
    | some v => exact ih.cons_cons _

/-- What is made of the entries, in their order. -/
def filterMap (m : InsertionMap κ ν) (f : κ → ν → Option μ) : InsertionMap κ μ :=
  ⟨m.entries.filterMap fun e => (f e.1 e.2).map fun v => (e.1, v), m.nodup.sublist map_fst_filterMap⟩

variable {m : InsertionMap κ ν} {k a : κ} {v w : ν}

theorem get_eq_some_iff : m.get k = some v ↔ (k, v) ∈ m.entries := by
  unfold get
  constructor
  · intro h
    obtain ⟨e, he, rfl⟩ := Option.map_eq_some_iff.1 h
    obtain rfl : e.1 = k := by simpa using List.find?_some he
    exact List.mem_of_find?_eq_some he
  · intro h
    cases hf : m.entries.find? fun e => e.1 = k with
    | none =>
      have hne := List.find?_eq_none.1 hf _ h
      simp at hne
    | some e =>
      have hk : e.1 = k := by simpa using List.find?_some hf
      have hsame := List.inj_on_of_nodup_map m.nodup (List.mem_of_find?_eq_some hf) h hk
      rw [Option.map_some, hsame]

@[simp] theorem get_empty : (∅ : InsertionMap κ ν).get k = none := rfl

theorem mem_set : (a, w) ∈ (m.set k v).entries ↔ if k = a then v = w else (a, w) ∈ m.entries := by
  unfold set
  split_ifs with hmem hka hka
  · subst hka
    rw [List.mem_map]
    constructor
    · rintro ⟨e, -, he⟩
      split_ifs at he with hek
      · exact (Prod.mk.inj he).2
      · exact (hek (congrArg Prod.fst he)).elim
    · rintro rfl
      obtain ⟨e, he, hek⟩ := List.mem_map.1 hmem
      exact ⟨e, he, if_pos hek⟩
  · rw [List.mem_map]
    constructor
    · rintro ⟨e, he, hea⟩
      split_ifs at hea with hek
      · exact (hka (congrArg Prod.fst hea)).elim
      · rw [← hea]
        exact he
    · intro h
      exact ⟨(a, w), h, if_neg (Ne.symm hka)⟩
  · subst hka
    rw [List.mem_append, List.mem_singleton]
    constructor
    · rintro (h | h)
      · exact (hmem (List.mem_map.2 ⟨_, h, rfl⟩)).elim
      · exact (Prod.mk.inj h).2.symm
    · rintro rfl
      exact Or.inr rfl
  · rw [List.mem_append, List.mem_singleton]
    refine or_iff_left fun h => ?_
    exact hka (congrArg Prod.fst h).symm

theorem get_set : (m.set k v).get a = if k = a then some v else m.get a := by
  ext w
  rw [get_eq_some_iff, mem_set]
  split_ifs with hka
  · exact (Option.some_inj).symm
  · exact get_eq_some_iff.symm

theorem get_delete : (m.delete k).get a = if k = a then none else m.get a := by
  ext w
  rw [get_eq_some_iff, delete, List.mem_filter]
  split_ifs with hka
  · simp [hka]
  · rw [get_eq_some_iff]
    simp [Ne.symm hka]

theorem get_filterMap {f : κ → ν → Option μ} : (m.filterMap f).get k = (m.get k).bind (f k) := by
  ext w
  rw [get_eq_some_iff, filterMap, List.mem_filterMap, Option.bind_eq_some_iff]
  constructor
  · rintro ⟨e, he, hf⟩
    obtain ⟨w', hw, heq⟩ := Option.map_eq_some_iff.1 hf
    cases heq
    exact ⟨e.2, get_eq_some_iff.2 he, hw⟩
  · rintro ⟨v, hv, hw⟩
    exact ⟨(k, v), get_eq_some_iff.1 hv, by rw [hw]; rfl⟩

theorem get_filterMap_keep {c : κ → Prop} [DecidablePred c] :
    (m.filterMap fun k v => if c k then some v else none).get k = some v ↔ m.get k = some v ∧ c k := by
  rw [get_filterMap]
  cases m.get k with
  | none => simp
  | some w =>
    rw [Option.bind_some]
    split_ifs with hc
    · simp [hc]
    · simp [hc]

/-- To look for what was made of a key among what was made of all is to look for the key. -/
theorem find?_filterMap {f : κ → ν → Option μ} {name : μ → κ} (hname : ∀ k v u, f k v = some u → name u = k)
    {l : List (κ × ν)} (hl : (l.map Prod.fst).Nodup) :
    (l.filterMap fun e => f e.1 e.2).find? (fun u => name u = k) =
      ((l.find? fun e => e.1 = k).map Prod.snd).bind (f k) := by
  induction l with
  | nil => rfl
  | cons e l ih =>
    rw [List.map_cons, List.nodup_cons] at hl
    rw [List.filterMap_cons]
    by_cases he : e.1 = k
    · subst he
      rw [List.find?_cons_of_pos (by simp), Option.map_some, Option.bind_some]
      cases hf : f e.1 e.2 with
      | none =>
        dsimp only
        rw [List.find?_eq_none]
        intro u hu hk
        obtain ⟨e', he', hu⟩ := List.mem_filterMap.1 hu
        rw [decide_eq_true_iff, hname _ _ _ hu] at hk
        exact hl.1 (hk ▸ List.mem_map_of_mem he')
      | some u => exact List.find?_cons_of_pos (by simp [hname _ _ _ hf])
    · rw [List.find?_cons_of_neg (by simpa using he), ← ih hl.2]
      cases hf : f e.1 e.2 with
      | none => rfl
      | some u =>
        dsimp only
        exact List.find?_cons_of_neg (by simpa [hname _ _ _ hf] using he)

theorem find?_made {f : κ → ν → Option μ} {name : μ → κ} (hname : ∀ k v u, f k v = some u → name u = k) :
    (m.entries.filterMap fun e => f e.1 e.2).find? (fun u => name u = k) = (m.get k).bind (f k) :=
  find?_filterMap hname m.nodup

/-- How many entries there are of a kind is how many keys have a value of that kind. -/
theorem length_filter_eq_card {p : κ → ν → Bool} {S : Finset κ}
    (h : ∀ k, k ∈ S ↔ ∃ v, m.get k = some v ∧ p k v = true) :
    (m.entries.filter fun e => p e.1 e.2).length = S.card := by
  have hnodup : ((m.entries.filter fun e => p e.1 e.2).map Prod.fst).Nodup :=
    m.nodup.sublist (List.filter_sublist.map _)
  have hkeys : ((m.entries.filter fun e => p e.1 e.2).map Prod.fst).toFinset = S := by
    ext k
    rw [List.mem_toFinset, List.mem_map, h k]
    constructor
    · rintro ⟨e, he, rfl⟩
      obtain ⟨hmem, hp⟩ := List.mem_filter.1 he
      exact ⟨e.2, get_eq_some_iff.2 hmem, hp⟩
    · rintro ⟨v, hv, hp⟩
      exact ⟨(k, v), List.mem_filter.2 ⟨get_eq_some_iff.1 hv, hp⟩, rfl⟩
  rw [← hkeys, List.toFinset_card_of_nodup hnodup, List.length_map]

/-! Timeouts by number, each for a key, and for each key the number of its timeout -/

structure Armed (key : ν → κ) (timers : InsertionMap κ ℕ) (timeouts : InsertionMap ℕ ν) (next : ℕ) : Prop where
  timer : ∀ k t, timers.get k = some t ↔ ∃ x, timeouts.get t = some x ∧ key x = k
  fresh : ∀ t, next ≤ t → timeouts.get t = none

section Armed

variable {key : ν → κ} {timers timers' : InsertionMap κ ℕ} {timeouts timeouts' : InsertionMap ℕ ν} {next t : ℕ}
  {x y : ν}

theorem Armed.single {t' : ℕ} (h : Armed key timers timeouts next) (hx : timeouts.get t = some x)
    (hy : timeouts.get t' = some y) (hkey : key x = key y) : t = t' :=
  Option.some_injective _ (((h.timer _ _).2 ⟨x, hx, hkey⟩).symm.trans ((h.timer _ _).2 ⟨y, hy, rfl⟩))

theorem Armed.later {next' : ℕ} (h : Armed key timers timeouts next) (hle : next ≤ next') :
    Armed key timers timeouts next' :=
  ⟨h.timer, fun t ht => h.fresh t (hle.trans ht)⟩

/-- The timeout of a key is taken away. -/
theorem Armed.get_disarm (h : Armed key timers timeouts next)
    (hget : ∀ t, timeouts'.get t = if timers.get k = some t then none else timeouts.get t) :
    timeouts'.get t = some x ↔ timeouts.get t = some x ∧ k ≠ key x := by
  rw [hget]
  split_ifs with ht
  · refine iff_of_false id fun hx => hx.2 ?_
    obtain ⟨y, hy, hk⟩ := (h.timer _ _).1 ht
    rw [Option.some_injective _ (hx.1.symm.trans hy), hk]
  · refine (and_iff_left_of_imp fun hx hk => ht ?_).symm
    rw [hk]
    exact (h.timer _ _).2 ⟨x, hx, rfl⟩

theorem Armed.disarm (h : Armed key timers timeouts next)
    (hget : ∀ t, timeouts'.get t = if timers.get k = some t then none else timeouts.get t)
    (htimers : ∀ j, timers'.get j = if k = j then none else timers.get j) : Armed key timers' timeouts' next := by
  refine ⟨fun j t => ?_, fun t ht => ?_⟩
  · simp only [h.get_disarm hget]
    rw [htimers]
    split_ifs with hk
    · refine iff_of_false id ?_
      rintro ⟨x, ⟨-, hne⟩, rfl⟩
      exact hne hk
    · rw [h.timer]
      constructor
      · rintro ⟨x, hx, rfl⟩
        exact ⟨x, ⟨hx, hk⟩, rfl⟩
      · rintro ⟨x, ⟨hx, -⟩, hxk⟩
        exact ⟨x, hx, hxk⟩
  · rw [hget, h.fresh t ht, ite_self]

/-- A new timeout takes the place of the one that its key had. -/
theorem Armed.get_arm (h : Armed key timers timeouts next)
    (hget : ∀ t, timeouts'.get t =
      if next = t then some x else if timers.get (key x) = some t then none else timeouts.get t) :
    timeouts'.get t = some y ↔ next = t ∧ x = y ∨ timeouts.get t = some y ∧ key x ≠ key y := by
  rw [hget]
  split_ifs with hnext ht
  · subst hnext
    rw [Option.some.injEq, and_iff_right rfl, or_iff_left]
    rintro ⟨hy, -⟩
    cases (h.fresh _ le_rfl).symm.trans hy
  · rw [or_iff_right fun hy => hnext hy.1]
    refine iff_of_false id fun hy => hy.2 ?_
    obtain ⟨z, hz, hk⟩ := (h.timer _ _).1 ht
    rw [Option.some_injective _ (hy.1.symm.trans hz), hk]
  · rw [or_iff_right fun hy => hnext hy.1]
    refine (and_iff_left_of_imp fun hy hk => ht ?_).symm
    rw [hk]
    exact (h.timer _ _).2 ⟨y, hy, rfl⟩

theorem Armed.arm (h : Armed key timers timeouts next)
    (hget : ∀ t, timeouts'.get t =
      if next = t then some x else if timers.get (key x) = some t then none else timeouts.get t) :
    Armed key (timers.set (key x) next) timeouts' (next + 1) := by
  refine ⟨fun k t => ?_, fun t ht => ?_⟩
  · simp only [h.get_arm hget]
    rw [get_set]
    split_ifs with hk
    · rw [Option.some.injEq]
      constructor
      · rintro rfl
        exact ⟨x, Or.inl ⟨rfl, rfl⟩, hk⟩
      · rintro ⟨y, ⟨hnext, -⟩ | ⟨-, hne⟩, rfl⟩
        · exact hnext
        · exact absurd hk hne
    · rw [h.timer]
      constructor
      · rintro ⟨y, hy, rfl⟩
        exact ⟨y, Or.inr ⟨hy, hk⟩, rfl⟩
      · rintro ⟨y, ⟨-, rfl⟩ | ⟨hy, -⟩, hyk⟩
        · exact absurd hyk hk
        · exact ⟨y, hy, hyk⟩
  · rw [hget, if_neg (Nat.lt_of_succ_le ht).ne, h.fresh t (Nat.le_of_succ_le ht), ite_self]

end Armed

end InsertionMap
