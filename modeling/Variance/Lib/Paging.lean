import Mathlib.Data.List.Nodup
import Mathlib.Order.Defs.LinearOrder
import Mathlib.Order.Lattice
import Mathlib.Tactic.Common

/-! Reading a list page by page: each page is cut from what lies beyond a cursor, and the cursor of the next page is
made from an item of this one. -/

namespace Paging

/-! A page as it is filled -/

/-- The loop that adds an item and then stops if the page has come to its size. -/
def fill {α : Type*} (size : ℕ) : List α → List α → List α
  | [], page => page
  | x :: xs, page => if size ≤ (page ++ [x]).length then page ++ [x] else fill size xs (page ++ [x])

/-- One item at least goes in. -/
theorem fill_eq {α : Type*} {size : ℕ} {xs page : List α} (h : page.length < max 1 size) :
    fill size xs page = page ++ xs.take (max 1 size - page.length) := by
  induction xs generalizing page with
  | nil => simp [fill]
  | cons x xs ih =>
    obtain ⟨k, hk⟩ : ∃ k, max 1 size - page.length = k + 1 := ⟨max 1 size - page.length - 1, by omega⟩
    have hlen : (page ++ [x]).length = page.length + 1 := by simp
    rw [fill, hk, List.take_succ_cons]
    by_cases hfull : size ≤ (page ++ [x]).length
    · have hk0 : k = 0 := by omega
      rw [if_pos hfull, hk0, List.take_zero]
    · have hleft : max 1 size - (page ++ [x]).length = k := by omega
      rw [if_neg hfull, ih (by omega), hleft, List.append_assoc, List.singleton_append]

/-! The first of what there is, in the order of time -/

/-- Of the items that are wanted `n` are taken, or all if there are no more, in order, and none of them is later than
one that is left. -/
structure Earliest {α τ : Type*} [LinearOrder τ] (time : α → τ) (n : ℕ) (wanted taken : List α) : Prop where
  length : taken.length = min n wanted.length
  sorted : taken.Pairwise fun a b => time a ≤ time b
  left : ∃ rest, (taken ++ rest).Perm wanted ∧ ∀ a ∈ taken, ∀ b ∈ rest, time a ≤ time b

section Earliest
variable {α τ : Type*} [LinearOrder τ] {time : α → τ} {n : ℕ} {wanted taken : List α}

/-- Of a sorted list they are the first. -/
theorem earliest_take (h : wanted.Pairwise fun a b => time a ≤ time b) : Earliest time n wanted (wanted.take n) where
  length := List.length_take
  sorted := h.sublist (List.take_sublist _ _)
  left := by
    rw [← List.take_append_drop n wanted] at h
    refine ⟨wanted.drop n, ?_, (List.pairwise_append.1 h).2.2⟩
    rw [List.take_append_drop]

/-- With a limit that leaves room, all that is wanted is taken. -/
theorem Earliest.perm (h : Earliest time n wanted taken) (hn : wanted.length ≤ n) : taken.Perm wanted := by
  obtain ⟨rest, hperm, -⟩ := h.left
  have hlen := hperm.length_eq
  rw [List.length_append, h.length, Nat.min_eq_right hn] at hlen
  have hnil : rest = [] := List.length_eq_zero_iff.1 (by omega)
  rwa [hnil, List.append_nil] at hperm

end Earliest

structure Feed (α κ : Type*) where
  all : List α
  beyond : κ → α → Bool
  next : α → κ

namespace Feed
variable {α κ : Type*} (F : Feed α κ)

/-- What lies beyond the cursor, in the feed's order. -/
def after (c : κ) : List α := F.all.filter (F.beyond c)

/-! Forward, until nothing is left after a page -/

/-- The items of all pages; `none` when `fuel` pages do not bring it to an end. -/
def drain (limit : ℕ) : ℕ → κ → Option (List α)
  | 0, _ => none
  | fuel + 1, c =>
    if limit < (F.after c).length then
      match ((F.after c).take limit).getLast? with
      | none => none
      | some x => (drain limit fuel (F.next x)).map ((F.after c).take limit ++ ·)
    else some (F.after c)

/-- Wherever the reading starts, it comes to an end with everything beyond the cursor, each item once. -/
def Exact (limit : ℕ) : Prop := ∀ c, ∃ fuel out, F.drain limit fuel c = some out ∧ out.Perm (F.after c)

/-- The cursor that a full page leaves has beyond it what the page left over. -/
def Seamless (limit : ℕ) : Prop :=
  ∀ c x, limit < (F.after c).length → ((F.after c).take limit).getLast? = some x →
    F.after (F.next x) = (F.after c).drop limit

variable {F} {limit : ℕ}

theorem after_sublist (c : κ) : (F.after c).Sublist F.all := List.filter_sublist

/-- One reading ends as every other does: more pages allowed change nothing. -/
theorem drain_succ {fuel : ℕ} {c : κ} {out : List α} (h : F.drain limit fuel c = some out) :
    F.drain limit (fuel + 1) c = some out := by
  induction fuel generalizing c out with
  | zero => cases h
  | succ fuel ih =>
    rw [drain] at h ⊢
    split_ifs at h ⊢ with hl
    · split at h
      · cases h
      · rename_i x hx
        obtain ⟨rest, hr, rfl⟩ := Option.map_eq_some_iff.1 h
        rw [ih hr]
        rfl
    · exact h

theorem drain_le {fuel fuel' : ℕ} {c : κ} {out : List α} (h : F.drain limit fuel c = some out)
    (hle : fuel ≤ fuel') : F.drain limit fuel' c = some out := by
  induction hle with
  | refl => exact h
  | step _ ih => exact drain_succ ih

theorem drain_unique {fuel fuel' : ℕ} {c : κ} {out out' : List α} (h : F.drain limit fuel c = some out)
    (h' : F.drain limit fuel' c = some out') : out = out' := by
  rcases Nat.le_total fuel fuel' with hle | hle
  · exact Option.some.inj ((drain_le h hle).symm.trans h')
  · exact Option.some.inj (h.symm.trans (drain_le h' hle))

theorem drain_subset {fuel : ℕ} {c : κ} {out : List α} (h : F.drain limit fuel c = some out) :
    ∀ x ∈ out, x ∈ F.all := by
  induction fuel generalizing c out with
  | zero => cases h
  | succ fuel ih =>
    rw [drain] at h
    split_ifs at h with hl
    · split at h
      · cases h
      · obtain ⟨rest, hr, rfl⟩ := Option.map_eq_some_iff.1 h
        intro x hx
        rcases List.mem_append.1 hx with hx | hx
        · exact (after_sublist c).subset (List.take_subset _ _ hx)
        · exact ih hr x hx
    · obtain rfl := Option.some.inj h
      exact fun x hx => (after_sublist c).subset hx

theorem getLast?_take_isSome {xs : List α} (h0 : 0 < limit) (hl : limit < xs.length) :
    ∃ x, (xs.take limit).getLast? = some x := by
  cases hx : (xs.take limit).getLast? with
  | some x => exact ⟨x, rfl⟩
  | none =>
    have hnil := congrArg List.length (List.getLast?_eq_none_iff.1 hx)
    rw [List.length_take, List.length_nil] at hnil
    omega

theorem Seamless.exact (h0 : 0 < limit) (h : F.Seamless limit) : F.Exact limit := by
  intro c
  -- what is left shrinks by a page at a time
  induction hn : (F.after c).length using Nat.strongRecOn generalizing c with
  | ind n ih =>
    by_cases hl : limit < (F.after c).length
    · obtain ⟨x, hx⟩ := getLast?_take_isSome h0 hl
      have hleft := h c x hl hx
      have hlen : (F.after (F.next x)).length < n := by
        rw [hleft, List.length_drop]
        omega
      obtain ⟨fuel, out, hout, hperm⟩ := ih _ hlen (F.next x) rfl
      refine ⟨fuel + 1, (F.after c).take limit ++ out, ?_, ?_⟩
      · rw [drain, if_pos hl, hx]
        exact congrArg (Option.map _) hout
      · rw [hleft] at hperm
        exact (hperm.append_left _).trans (by rw [List.take_append_drop])
    · refine ⟨1, F.after c, ?_, List.Perm.refl _⟩
      rw [drain, if_neg hl]

/-- Two selections of a list without repetition that have the same items are the same. -/
theorem sublist_ext {l xs ys : List α} (hn : l.Nodup) (hx : xs.Sublist l) (hy : ys.Sublist l)
    (h : ∀ a, a ∈ xs ↔ a ∈ ys) : xs = ys := by
  induction l generalizing xs ys with
  | nil => rw [List.sublist_nil.1 hx, List.sublist_nil.1 hy]
  | cons b l ih =>
    obtain ⟨hb, hn⟩ := List.nodup_cons.1 hn
    cases hx with
    | cons _ hx =>
      cases hy with
      | cons _ hy => exact ih hn hx hy h
      | cons_cons _ hy => exact (hb (hx.subset ((h b).2 List.mem_cons_self))).elim
    | cons_cons _ hx =>
      cases hy with
      | cons _ hy => exact (hb (hy.subset ((h b).1 List.mem_cons_self))).elim
      | cons_cons _ hy =>
        refine congrArg (b :: ·) (ih hn hx hy fun a => ?_)
        have hab {zs : List α} (hz : zs.Sublist l) (ha : a ∈ zs) : a ≠ b := fun he => hb (he ▸ hz.subset ha)
        refine ⟨fun ha => ?_, fun ha => ?_⟩
        · exact (List.mem_cons.1 ((h a).1 (List.mem_cons_of_mem b ha))).resolve_left (hab hx ha)
        · exact (List.mem_cons.1 ((h a).2 (List.mem_cons_of_mem b ha))).resolve_left (hab hy ha)

/-- Exactness from every start is seamlessness: the rest of a reading is a reading of its own. -/
theorem exact_iff (hn : F.all.Nodup) (h0 : 0 < limit) : F.Exact limit ↔ F.Seamless limit := by
  refine ⟨fun h c x hl hx => ?_, Seamless.exact h0⟩
  obtain ⟨fuel, out, hout, hperm⟩ := h c
  obtain ⟨fuel', rest, hrest, hperm'⟩ := h (F.next x)
  cases fuel with
  | zero => cases hout
  | succ fuel =>
    rw [drain, if_pos hl, hx] at hout
    obtain ⟨rest', hr, rfl⟩ := Option.map_eq_some_iff.1 hout
    obtain rfl := drain_unique hr hrest
    have hsplit : ((F.after c).take limit ++ rest').Perm ((F.after c).take limit ++ (F.after c).drop limit) := by
      rw [List.take_append_drop]
      exact hperm
    have hleft : (F.after (F.next x)).Perm ((F.after c).drop limit) :=
      hperm'.symm.trans ((List.perm_append_left_iff _).1 hsplit)
    exact sublist_ext hn (after_sublist _) ((List.drop_sublist _ _).trans (after_sublist c)) fun a => hleft.mem_iff

/-! Backward, until a page comes empty -/

section Back
variable (F)

/-- A page of a backward reading: the nearest items, farthest first. -/
def page (limit : ℕ) (c : κ) : List α := ((F.after c).take limit).reverse

def pages (limit : ℕ) : ℕ → κ → Option (List (List α))
  | 0, _ => none
  | fuel + 1, c =>
    match F.page limit c with
    | [] => some []
    | x :: xs => (pages limit fuel (F.next x)).map ((x :: xs) :: ·)

end Back

/-- A list of items with times, read backward from its first item on by a bound on the time. -/
def timed {τ : Type*} [LinearOrder τ] (time : α → τ) (xs : List α) : Feed α (Option τ) where
  all := xs
  beyond
    | none, _ => true
    | some b, x => decide (time x < b)
  next x := some (time x)

section Timed
variable {τ : Type*} [LinearOrder τ] {time : α → τ} {xs : List α}

@[simp] theorem timed_after_none : (timed time xs).after none = xs := by
  simp [after, timed]

theorem mem_timed_after {b : τ} {x : α} : x ∈ (timed time xs).after (some b) ↔ x ∈ xs ∧ time x < b := by
  simp [after, timed]

/-- Past the last item of a strictly sorted stretch lies what follows it. -/
theorem timed_after_some {as bs : List α} {x : α} (hx : as.getLast? = some x)
    (h : (as ++ bs).Pairwise fun a b => time b < time a) : (timed time (as ++ bs)).after (some (time x)) = bs := by
  obtain ⟨init, rfl⟩ : ∃ init, as = init ++ [x] := List.getLast?_eq_some_iff.1 hx
  obtain ⟨hinit, hbs, hcross⟩ := List.pairwise_append.1 h
  have hlow : ∀ a ∈ init ++ [x], time x ≤ time a := by
    intro a ha
    rcases List.mem_append.1 ha with ha | ha
    · exact le_of_lt ((List.pairwise_append.1 hinit).2.2 a ha x (List.mem_singleton_self x))
    · rw [List.mem_singleton.1 ha]
  have hnone : (init ++ [x]).filter (fun a => decide (time a < time x)) = [] := by
    rw [List.filter_eq_nil_iff]
    intro a ha
    have := hlow a ha
    simpa using this
  have hall : bs.filter (fun a => decide (time a < time x)) = bs := by
    rw [List.filter_eq_self]
    intro b hb
    simpa using hcross x (by simp) b hb
  show ((init ++ [x]) ++ bs).filter (fun a => decide (time a < time x)) = bs
  rw [List.filter_append, hnone, hall, List.nil_append]

/-- A reading that brings exactly `want`, each page in the order of time. -/
def Enumerates (time : α → τ) (xs : List α) (limit : ℕ) (c : Option τ) (want : List α) : Prop :=
  ∃ fuel ps, (timed time xs).pages limit fuel c = some ps ∧ ps.flatten.Perm want ∧
    ∀ p ∈ ps, p.Pairwise fun a b => time a ≤ time b

theorem reverse_take_sorted {bs : List α} {limit : ℕ} (h : bs.Pairwise fun a b => time b < time a) :
    ((bs.take limit).reverse).Pairwise fun a b => time a ≤ time b :=
  List.pairwise_reverse.2 ((h.sublist (List.take_sublist limit bs)).imp le_of_lt)

/-- Strictly sorted, the pages are one stretch after the other. -/
theorem enumerates_of_sorted {limit : ℕ} (h0 : 0 < limit) {as bs : List α} {c : Option τ}
    (h : (as ++ bs).Pairwise fun a b => time b < time a) (hc : (timed time (as ++ bs)).after c = bs) :
    Enumerates time (as ++ bs) limit c bs := by
  induction hn : bs.length using Nat.strongRecOn generalizing as bs c with
  | ind n ih =>
    have hpage : (timed time (as ++ bs)).page limit c = (bs.take limit).reverse := by rw [page, hc]
    cases hrev : (bs.take limit).reverse with
    | nil =>
      have hnil : bs = [] := by
        rcases List.take_eq_nil_iff.1 (List.reverse_eq_nil_iff.1 hrev) with hl | hb
        · omega
        · exact hb
      refine ⟨1, [], ?_, by rw [hnil]; exact List.Perm.refl _, by simp⟩
      rw [pages, hpage, hrev]
    | cons x ys =>
      have hlast : (as ++ bs.take limit).getLast? = some x := by
        have hx : (bs.take limit).getLast? = some x := by
          rw [← List.head?_reverse, hrev]
          rfl
        rw [List.getLast?_append, hx]
        rfl
      have hsplit : as ++ bs = (as ++ bs.take limit) ++ bs.drop limit := by
        rw [List.append_assoc, List.take_append_drop]
      have hlen : (bs.drop limit).length < n := by
        have hne : bs ≠ [] := by
          rintro rfl
          simp at hrev
        have := List.length_pos_iff.2 hne
        rw [List.length_drop]
        omega
      have hrest : Enumerates time (as ++ bs) limit (some (time x)) (bs.drop limit) := by
        rw [hsplit]
        rw [hsplit] at h
        exact ih _ hlen h (timed_after_some hlast h) rfl
      obtain ⟨fuel, ps, hps, hperm, hsorted⟩ := hrest
      refine ⟨fuel + 1, (x :: ys) :: ps, ?_, ?_, ?_⟩
      · rw [pages, hpage, hrev]
        show ((timed time (as ++ bs)).pages limit fuel (some (time x))).map _ = _
        rw [hps]
        rfl
      · rw [← hrev, List.flatten_cons]
        refine (List.Perm.append (List.reverse_perm _) hperm).trans ?_
        rw [List.take_append_drop]
      · intro p hp
        rcases List.mem_cons.1 hp with rfl | hp
        · rw [← hrev]
          exact reverse_take_sorted (List.pairwise_append.1 h).2.1
        · exact hsorted p hp

/-- What lies beyond the cursor of the last page read is what the pages still bring. -/
theorem pages_beyond {limit fuel : ℕ} {c : Option τ} {ps : List (List α)}
    (h : (timed time xs).pages limit fuel c = some ps) : ∀ x ∈ ps.flatten, x ∈ (timed time xs).after c := by
  induction fuel generalizing c ps with
  | zero => cases h
  | succ fuel ih =>
    rw [pages] at h
    split at h
    · obtain rfl := Option.some.inj h
      simp
    · rename_i y ys hy
      obtain ⟨rest, hr, rfl⟩ := Option.map_eq_some_iff.1 h
      have hpage : ∀ z ∈ y :: ys, z ∈ (timed time xs).after c := by
        intro z hz
        rw [← hy] at hz
        exact List.take_subset _ _ (List.mem_reverse.1 hz)
      intro x hx
      rcases List.mem_append.1 hx with hx | hx
      · exact hpage x hx
      · -- nearer than the last item of this page, and so than the cursor
        obtain ⟨hmem, hlt⟩ := mem_timed_after.1 (ih hr x hx)
        cases c with
        | none => rw [timed_after_none]; exact hmem
        | some b =>
          have hyb := (mem_timed_after.1 (hpage y List.mem_cons_self)).2
          exact mem_timed_after.2 ⟨hmem, lt_trans hlt hyb⟩

/-- Pages of one item go strictly down. -/
theorem pages_one_sorted {fuel : ℕ} {c : Option τ} {ps : List (List α)}
    (h : (timed time xs).pages 1 fuel c = some ps) : ps.flatten.Pairwise fun a b => time b < time a := by
  induction fuel generalizing c ps with
  | zero => cases h
  | succ fuel ih =>
    rw [pages] at h
    split at h
    · obtain rfl := Option.some.inj h
      exact List.Pairwise.nil
    · rename_i y ys hy
      obtain ⟨rest, hr, rfl⟩ := Option.map_eq_some_iff.1 h
      have hys : ys = [] := by
        have hlen := congrArg List.length hy
        rw [page, List.length_reverse, List.length_take, List.length_cons] at hlen
        exact List.length_eq_zero_iff.1 (by omega)
      subst hys
      rw [List.flatten_cons, List.singleton_append]
      exact List.pairwise_cons.2 ⟨fun x hx => (mem_timed_after.1 (pages_beyond hr x hx)).2, ih hr⟩

/-- A reading in one page needs no second one. -/
theorem one_page {limit fuel : ℕ} {ps : List (List α)} (hl : xs.length ≤ limit)
    (h : (timed time xs).pages limit fuel none = some ps)
    (hsorted : ∀ p ∈ ps, p.Pairwise fun a b => time a ≤ time b) :
    ps.flatten = xs.reverse ∧ xs.Pairwise fun a b => time b ≤ time a := by
  have hpage : (timed time xs).page limit none = xs.reverse := by
    rw [page, timed_after_none, List.take_of_length_le hl]
  cases fuel with
  | zero => cases h
  | succ fuel =>
    rw [pages, hpage] at h
    cases hrev : xs.reverse with
    | nil =>
      rw [hrev] at h
      obtain rfl := Option.some.inj h
      refine ⟨by simp, ?_⟩
      rw [List.reverse_eq_nil_iff.1 hrev]
      exact List.Pairwise.nil
    | cons y ys =>
      rw [hrev] at h
      obtain ⟨rest, hr, rfl⟩ := Option.map_eq_some_iff.1 h
      have hy := hsorted (y :: ys) List.mem_cons_self
      -- the page's first item is the earliest of all
      have hnone : ∀ x ∈ rest.flatten, False := by
        intro x hx
        obtain ⟨hmem, hlt⟩ := mem_timed_after.1 (pages_beyond hr x hx)
        rw [← List.mem_reverse, hrev] at hmem
        rcases List.mem_cons.1 hmem with rfl | hmem
        · exact lt_irrefl _ hlt
        · exact absurd hlt (not_lt.2 ((List.pairwise_cons.1 hy).1 x hmem))
      have hnil : rest.flatten = [] := List.eq_nil_iff_forall_not_mem.2 fun x hx => hnone x hx
      refine ⟨by rw [List.flatten_cons, hnil, List.append_nil], ?_⟩
      rw [← hrev] at hy
      exact List.pairwise_reverse.1 hy

/-- Every page size enumerates exactly when the items are those wanted and their times strictly sorted. -/
theorem enumerates_iff {want : List α} :
    (∀ limit, 0 < limit → Enumerates time xs limit none want) ↔
      xs.Perm want ∧ xs.Pairwise fun a b => time b < time a := by
  constructor
  · intro h
    obtain ⟨fuel, ps, hps, hperm, hsorted⟩ := h (xs.length + 1) (Nat.succ_pos _)
    obtain ⟨hflat, hle⟩ := one_page (Nat.le_succ _) hps hsorted
    rw [hflat] at hperm
    have hwant : xs.Perm want := (List.reverse_perm xs).symm.trans hperm
    refine ⟨hwant, ?_⟩
    obtain ⟨fuel', ps', hps', hperm', -⟩ := h 1 Nat.one_pos
    have hstrict : (xs.map time).Nodup := by
      refine ((hwant.trans hperm'.symm).map time).nodup_iff.2 ?_
      refine List.pairwise_map.2 ((pages_one_sorted hps').imp fun hlt => ?_)
      exact (ne_of_lt hlt).symm
    exact (hle.and (List.pairwise_map.1 hstrict)).imp fun hab => lt_of_le_of_ne hab.1 (Ne.symm hab.2)
  · rintro ⟨hwant, hs⟩ limit h0
    have hread : Enumerates time ([] ++ xs) limit none xs := enumerates_of_sorted h0 hs timed_after_none
    obtain ⟨fuel, ps, hps, hperm, hsorted⟩ := hread
    exact ⟨fuel, ps, hps, hperm.trans hwant, hsorted⟩

end Timed
end Feed
end Paging
