import Variance.Proofs.CacheFreshness
import Variance.Spec.IdentityCache

/-! A remove of a cached identity is final if nobody is on the way with what it removes. -/

namespace Variance
namespace CacheRace
open MultiLayerCache
variable {V : Type} {s : CacheRace V} {i : ℕ} {f : DiskFaults}

/-! What a get may do -/

inductive GetOutcome (s : CacheRace V) (i : ℕ) : Option (Answer V) × CacheRace V → Prop
  | waits : GetOutcome s i (none, s)
  | misses {t : GetTask V} {stage : GetStage V} : s.gets[i]? = some t → ¬ stage.Hit →
      GetOutcome s i (none, { s with gets := s.gets.set i { t with stage } })
  | answersL1 {t : GetTask V} {e : CacheEntry (Stamped V)} : s.gets[i]? = some t → s.cache.l1[s.key]? = some e →
      GetOutcome s i (some (.got t.late (.ok (some e.value))), { s with gets := s.gets.eraseIdx i })
  | hitsL2 {t : GetTask V} {e : CacheEntry (Stamped V)} : s.gets[i]? = some t → s.cache.l2[s.key]? = some e →
      GetOutcome s i (none, { s with gets := s.gets.set i { t with stage := .promoteL1 e.value } })
  | hitsL3 {t : GetTask V} {e : DiskEntry (Stamped V)} : s.gets[i]? = some t → s.cache.l3[s.key]? = some e →
      GetOutcome s i (none, { s with gets := s.gets.set i { t with stage := .promoteL2 e.value } })
  | answersNone {t : GetTask V} {r : Except CacheError (Option (Stamped V))} {l3 : SledTree (DiskEntry (Stamped V))} :
      s.gets[i]? = some t → (∀ v, r ≠ .ok (some v)) → l3 = s.cache.l3 ∨ l3 = s.cache.l3.erase s.key →
      GetOutcome s i (some (.got t.late r), { s with cache := { s.cache with l3 }, gets := s.gets.eraseIdx i })
  | promotesL2 {t : GetTask V} {v : Stamped V} : s.gets[i]? = some t → t.stage = .promoteL2 v →
      s.removing ≠ some .l1l2 → GetOutcome s i (none, { s with
        cache := s.cache.l2Insert s.key v s.now
        gets := s.gets.set i { t with stage := .promoteL1 v } })
  | promotesL1 {t : GetTask V} {v : Stamped V} : s.gets[i]? = some t → t.stage = .promoteL1 v → s.removing = none →
      GetOutcome s i (some (.got t.late (.ok (some v))),
        { s with cache := s.cache.l1Insert s.key v s.now, gets := s.gets.eraseIdx i })

theorem getStep_outcome (s : CacheRace V) (i : ℕ) (f : DiskFaults) : GetOutcome s i (s.getStep i f) := by
  unfold getStep
  cases ht : s.gets[i]? with
  | none => exact .waits
  | some t =>
    dsimp only
    cases hstage : t.stage with
    | l1 =>
      dsimp only
      split_ifs with hlocked
      · exact .waits
      · have hnext : ¬ GetStage.Hit (.l2 : GetStage V) := id
        cases hget : s.cache.l1.get s.key s.now with
        | none => exact .misses ht hnext
        | some v =>
          obtain ⟨e, he, -, rfl⟩ := UpperCache.get_eq_some_iff.1 hget
          exact .answersL1 ht he
    | l2 =>
      dsimp only
      split_ifs with hlocked
      · exact .waits
      · have hnext : ¬ GetStage.Hit (.l3 : GetStage V) := id
        cases hget : s.cache.l2.get s.key s.now with
        | none => exact .misses ht hnext
        | some v =>
          obtain ⟨e, he, -, rfl⟩ := UpperCache.get_eq_some_iff.1 hget
          exact .hitsL2 ht he
    | l3 =>
      dsimp only
      rcases l3Get_cases s.cache f s.key s.now with ⟨e, he, -, heq⟩ | ⟨hmiss, hrest⟩
      · rw [heq]
        exact .hitsL3 ht he
      · have hcache : ∃ l3, (s.cache.l3Get f s.key s.now).2 = { s.cache with l3 } ∧
            (l3 = s.cache.l3 ∨ l3 = s.cache.l3.erase s.key) := by
          rcases hrest with heq | heq
          · exact ⟨s.cache.l3, heq, Or.inl rfl⟩
          · exact ⟨_, heq, Or.inr rfl⟩
        obtain ⟨l3, heq, hl3⟩ := hcache
        rw [heq]
        cases hr : (s.cache.l3Get f s.key s.now).1 with
        | error e => exact .answersNone ht (by simp) hl3
        | ok o =>
          cases o with
          | none => exact .answersNone ht (by simp) hl3
          | some v => exact absurd hr (hmiss v)
    | promoteL2 v =>
      dsimp only
      split_ifs with hlocked
      · exact .waits
      · exact .promotesL2 ht hstage hlocked
    | promoteL1 v =>
      dsimp only
      split_ifs with hlocked
      · exact .waits
      · exact .promotesL1 ht hstage (not_not.1 hlocked)

/-! The invariant -/

/-- The get is on the way with the value. -/
def GetStage.Brings (stage : GetStage V) (v : Stamped V) : Prop := stage = .promoteL2 v ∨ stage = .promoteL1 v

theorem GetStage.Brings.hit {stage : GetStage V} {v : Stamped V} (h : stage.Brings v) : stage.Hit := by
  rcases h with rfl | rfl
  · trivial
  · trivial

/-- What there is was inserted; once a remove has completed there is nothing, and nobody is on the way with anything,
until an insert begins. -/
structure Inv (s : CacheRace V) : Prop where
  numbered1 : ∀ e, s.cache.l1[s.key]? = some e → e.value.serial < s.inserts
  numbered2 : ∀ e, s.cache.l2[s.key]? = some e → e.value.serial < s.inserts
  numbered3 : ∀ e, s.cache.l3[s.key]? = some e → e.value.serial < s.inserts
  brought : ∀ t ∈ s.gets, ∀ v, t.stage.Brings v → v.serial < s.inserts
  written : ∀ t ∈ s.writing, t.value.serial < s.inserts
  late : ∀ t ∈ s.gets, t.late = true → s.removed = true
  vacant : s.removed = true → s.cache.l1[s.key]? = none ∧ s.cache.l2[s.key]? = none ∧ s.cache.l3[s.key]? = none
  idle : s.removed = true → s.writing = []
  unhit : s.removed = true → ∀ t ∈ s.gets, ¬ t.stage.Hit
  cleared1 : s.removing ≠ none → s.cache.l1[s.key]? = none
  cleared2 : s.removing = some .l1l2 → s.cache.l2[s.key]? = none

theorem inv_init (hs : (cacheRaceSys V).init s) : s.Inv := by
  obtain ⟨hcache, hgets, hwriting, hremoving, hremoved⟩ := hs
  refine ⟨?_, ?_, ?_, ?_, ?_, ?_, ?_, ?_, ?_, ?_, ?_⟩
  all_goals simp [hcache, hgets, hwriting, hremoving, hremoved, MultiLayerCache.empty]

/-- Whose gets are those there were, or new ones that bring no more than is allowed. -/
theorem Inv.setGets (h : s.Inv) {gets : List (GetTask V)}
    (hgets : ∀ t ∈ gets, t ∈ s.gets ∨ (t.late = true → s.removed = true) ∧ (s.removed = true → ¬ t.stage.Hit) ∧
      ∀ v, t.stage.Brings v → v.serial < s.inserts) : Inv { s with gets } where
  numbered1 := h.numbered1
  numbered2 := h.numbered2
  numbered3 := h.numbered3
  brought t ht := by
    rcases hgets t ht with hin | hnew
    · exact h.brought t hin
    · exact hnew.2.2
  written := h.written
  late t ht := by
    rcases hgets t ht with hin | hnew
    · exact h.late t hin
    · exact hnew.1
  vacant := h.vacant
  idle := h.idle
  unhit hr t ht := by
    rcases hgets t ht with hin | hnew
    · exact h.unhit hr t hin
    · exact hnew.2.1 hr
  cleared1 := h.cleared1
  cleared2 := h.cleared2

theorem Inv.eraseGet (h : s.Inv) (i : ℕ) : Inv { s with gets := s.gets.eraseIdx i } :=
  h.setGets fun _ ht => Or.inl (List.mem_of_mem_eraseIdx ht)

/-- A get goes on, with a value that there is or with none. -/
theorem Inv.setGet (h : s.Inv) {t : GetTask V} {stage : GetStage V} (ht : s.gets[i]? = some t)
    (hhit : s.removed = true → ¬ stage.Hit) (hbrings : ∀ v, stage.Brings v → v.serial < s.inserts) :
    Inv { s with gets := s.gets.set i { t with stage } } := by
  refine h.setGets fun t' ht' => ?_
  rcases List.mem_or_eq_of_mem_set ht' with hin | rfl
  · exact Or.inl hin
  · exact Or.inr ⟨h.late t (List.mem_of_getElem? ht), hhit, hbrings⟩

/-- Entries may go. -/
theorem Inv.fewer (h : s.Inv) {cache : MultiLayerCache (Stamped V)}
    (h1 : ∀ e, cache.l1[s.key]? = some e → s.cache.l1[s.key]? = some e)
    (h2 : ∀ e, cache.l2[s.key]? = some e → s.cache.l2[s.key]? = some e)
    (h3 : ∀ e, cache.l3[s.key]? = some e → s.cache.l3[s.key]? = some e) : Inv { s with cache } := by
  have hnone {β : Type} {a b : Option β} (hab : ∀ e, a = some e → b = some e) (hb : b = none) : a = none :=
    Option.eq_none_iff_forall_ne_some.2 fun e he => by
      rw [hab e he] at hb
      cases hb
  exact
    { numbered1 := fun e he => h.numbered1 e (h1 e he)
      numbered2 := fun e he => h.numbered2 e (h2 e he)
      numbered3 := fun e he => h.numbered3 e (h3 e he)
      brought := h.brought
      written := h.written
      late := h.late
      vacant := fun hr =>
        ⟨hnone h1 (h.vacant hr).1, hnone h2 (h.vacant hr).2.1, hnone h3 (h.vacant hr).2.2⟩
      idle := h.idle
      unhit := h.unhit
      cleared1 := fun hr => hnone h1 (h.cleared1 hr)
      cleared2 := fun hr => hnone h2 (h.cleared2 hr) }

/-- A value that was inserted is written to the first layer, which nobody has locked. -/
theorem Inv.storeL1 (h : s.Inv) {v : Stamped V} (hv : v.serial < s.inserts) (hremoved : s.removed = false)
    (hremoving : s.removing = none) : Inv { s with cache := s.cache.l1Insert s.key v s.now } where
  numbered1 e he := by
    obtain rfl : CacheEntry.new v l1Ttl s.now = e := by simpa [l1Insert] using he
    exact hv
  numbered2 := h.numbered2
  numbered3 := h.numbered3
  brought := h.brought
  written := h.written
  late := h.late
  vacant hr := absurd hr (by simp [hremoved])
  idle := h.idle
  unhit := h.unhit
  cleared1 hr := absurd hremoving hr
  cleared2 := h.cleared2

theorem Inv.storeL2 (h : s.Inv) {v : Stamped V} (hv : v.serial < s.inserts) (hremoved : s.removed = false)
    (hremoving : s.removing ≠ some .l1l2) : Inv { s with cache := s.cache.l2Insert s.key v s.now } where
  numbered1 := h.numbered1
  numbered2 e he := by
    obtain rfl : CacheEntry.new v l2Ttl s.now = e := by simpa [l2Insert] using he
    exact hv
  numbered3 := h.numbered3
  brought := h.brought
  written := h.written
  late := h.late
  vacant hr := absurd hr (by simp [hremoved])
  idle := h.idle
  unhit := h.unhit
  cleared1 := h.cleared1
  cleared2 hr := absurd hr hremoving

/-- Where there is something, no remove has the last word. -/
theorem Inv.not_removed_of_hit (h : s.Inv) {t : GetTask V} (ht : s.gets[i]? = some t) (hhit : t.stage.Hit) :
    s.removed = false := by
  by_contra hr
  exact h.unhit (by simpa using hr) t (List.mem_of_getElem? ht) hhit

/-! Each step -/

theorem Inv.getStep (h : s.Inv) : (s.getStep i f).2.Inv := by
  have ho := getStep_outcome s i f
  generalize s.getStep i f = r at ho ⊢
  cases ho with
  | waits => exact h
  | misses ht hmiss => exact h.setGet ht (fun _ => hmiss) fun v hv => absurd hv.hit hmiss
  | answersL1 ht he => exact h.eraseGet i
  | @hitsL2 t e ht he =>
    refine h.setGet ht (fun hr => ?_) fun v hv => ?_
    · rw [(h.vacant hr).2.1] at he
      cases he
    · obtain rfl : e.value = v := by simpa [GetStage.Brings] using hv
      exact h.numbered2 e he
  | @hitsL3 t e ht he =>
    refine h.setGet ht (fun hr => ?_) fun v hv => ?_
    · rw [(h.vacant hr).2.2] at he
      cases he
    · obtain rfl : e.value = v := by simpa [GetStage.Brings] using hv
      exact h.numbered3 e he
  | answersNone ht hr hl3 =>
    refine Inv.fewer (h.eraseGet i) (fun _ => id) (fun _ => id) fun e he => ?_
    rcases hl3 with rfl | rfl
    · exact he
    · simp at he
  | @promotesL2 t v ht hstage hlocked =>
    have hv : v.serial < s.inserts := h.brought t (List.mem_of_getElem? ht) v (Or.inl hstage)
    have hremoved : s.removed = false := h.not_removed_of_hit ht (by rw [hstage]; trivial)
    refine Inv.setGet (h.storeL2 hv hremoved hlocked) ht (fun hr => ?_) fun u hu => ?_
    · rw [hremoved] at hr
      cases hr
    · obtain rfl : v = u := by simpa [GetStage.Brings] using hu
      exact hv
  | @promotesL1 t v ht hstage hlocked =>
    have hv : v.serial < s.inserts := h.brought t (List.mem_of_getElem? ht) v (Or.inr hstage)
    exact Inv.eraseGet (h.storeL1 hv (h.not_removed_of_hit ht (by rw [hstage]; trivial)) hlocked) i

theorem Inv.startInsert (h : s.Inv) (verified : Bool) (value : V) : (s.startInsert verified value).2.Inv := by
  unfold CacheRace.startInsert
  split_ifs with hverified
  · exact h
  · have hmem {t : GetTask V} (ht : t ∈ s.gets.map fun t => { t with late := false }) :
        ∃ t' ∈ s.gets, t'.stage = t.stage ∧ t.late = false := by
      obtain ⟨t', ht', rfl⟩ := List.mem_map.1 ht
      exact ⟨t', ht', rfl, rfl⟩
    refine ⟨fun e he => ?_, fun e he => ?_, fun e he => ?_, fun t ht v hv => ?_, fun t ht => ?_, fun t ht hlate => ?_,
      fun hr => (by cases hr), fun hr => (by cases hr), fun hr => (by cases hr), h.cleared1, h.cleared2⟩
    · exact Nat.lt_succ_of_lt (h.numbered1 e he)
    · exact Nat.lt_succ_of_lt (h.numbered2 e he)
    · exact Nat.lt_succ_of_lt (h.numbered3 e he)
    · obtain ⟨t', ht', hstage, -⟩ := hmem ht
      exact Nat.lt_succ_of_lt (h.brought t' ht' v (by rw [hstage]; exact hv))
    · rcases List.mem_append.1 ht with hin | hnew
      · exact Nat.lt_succ_of_lt (h.written t hin)
      · rw [List.mem_singleton.1 hnew]
        exact Nat.lt_succ_self s.inserts
    · obtain ⟨-, -, -, hfalse⟩ := hmem ht
      rw [hfalse] at hlate
      cases hlate

theorem Inv.setWriting (h : s.Inv) {writing : List (InsertTask V)} (hremoved : s.removed = false)
    (hw : ∀ t ∈ writing, t.value.serial < s.inserts) : Inv { s with writing } where
  numbered1 := h.numbered1
  numbered2 := h.numbered2
  numbered3 := h.numbered3
  brought := h.brought
  written := hw
  late := h.late
  vacant := h.vacant
  idle hr := absurd hr (by simp [hremoved])
  unhit := h.unhit
  cleared1 := h.cleared1
  cleared2 := h.cleared2

theorem Inv.storeL3 (h : s.Inv) {v : Stamped V} (hv : v.serial < s.inserts) (hremoved : s.removed = false) :
    Inv { s with cache := (s.cache.l3Insert f s.key v s.now).2 } := by
  unfold l3Insert
  split_ifs
  · exact h
  · exact { h with
      numbered3 := fun e he => by
        obtain rfl : (⟨v, s.now / nanosPerSec + l3Ttl⟩ : DiskEntry (Stamped V)) = e := by simpa using he
        exact hv
      vacant := fun hr => absurd hr (by simp [hremoved]) }

theorem Inv.insertStep (h : s.Inv) : (s.insertStep i f).2.Inv := by
  unfold CacheRace.insertStep
  cases ht : s.writing[i]? with
  | none => exact h
  | some t =>
    have hmem : t ∈ s.writing := List.mem_of_getElem? ht
    have hv : t.value.serial < s.inserts := h.written t hmem
    have hremoved : s.removed = false := by
      by_contra hr
      rw [h.idle (by simpa using hr)] at hmem
      cases hmem
    have hset (stage : InsertStage) : ∀ u ∈ s.writing.set i { t with stage }, u.value.serial < s.inserts := by
      intro u hu
      rcases List.mem_or_eq_of_mem_set hu with hin | rfl
      · exact h.written u hin
      · exact hv
    dsimp only
    cases t.stage with
    | l1 =>
      dsimp only
      split_ifs with hlocked
      · exact h
      · exact Inv.setWriting (h.storeL1 hv hremoved (not_not.1 hlocked)) hremoved (hset .l2)
    | l2 =>
      dsimp only
      split_ifs with hlocked
      · exact h
      · exact Inv.setWriting (h.storeL2 hv hremoved hlocked) hremoved (hset .l3)
    | l3 =>
      exact Inv.setWriting (h.storeL3 hv hremoved) hremoved fun u hu => h.written u (List.mem_of_mem_eraseIdx hu)

theorem Inv.startRemove (h : s.Inv) : s.startRemove.Inv := by
  unfold CacheRace.startRemove
  split_ifs with hlocked
  · exact h
  · have hfewer : Inv { s with cache := { s.cache with l1 := s.cache.l1.erase s.key } } :=
      h.fewer (fun e he => (by simp at he)) (fun _ => id) fun _ => id
    exact { hfewer with
      cleared1 := fun _ => by simp
      cleared2 := fun hr => by cases hr }

theorem Inv.removeStep (h : s.Inv) (hc : s.Careful (.remove f)) : (s.removeStep f).2.Inv := by
  unfold CacheRace.removeStep
  cases hremoving : s.removing with
  | none => exact h
  | some stage =>
    cases stage with
    | l1 =>
      have hfewer : Inv { s with cache := { s.cache with l2 := s.cache.l2.erase s.key } } :=
        h.fewer (fun _ => id) (fun e he => (by simp at he)) fun _ => id
      exact { hfewer with
        cleared1 := fun _ => h.cleared1 (by rw [hremoving]; simp)
        cleared2 := fun _ => by simp }
    | l1l2 =>
      obtain ⟨hgets, hwriting, hdisk⟩ := hc hremoving
      have h1 : s.cache.l1[s.key]? = none := h.cleared1 (by rw [hremoving]; simp)
      have h2 : s.cache.l2[s.key]? = none := h.cleared2 hremoving
      obtain ⟨l3, hrest, h3⟩ :
          ∃ l3, s.cache.l3Remove f s.key = { s.cache with l3 } ∧ l3[s.key]? = none := by
        rcases l3Remove_cases s.cache f s.key with ⟨hfails, heq⟩ | heq
        · exact ⟨s.cache.l3, heq, hdisk hfails⟩
        · exact ⟨s.cache.l3.erase s.key, heq, by simp⟩
      have hfewer : Inv { s with cache := { s.cache with l3 } } :=
        h.fewer (fun _ => id) (fun _ => id) fun e he => (by rw [h3] at he; cases he)
      dsimp only
      rw [hrest]
      exact { hfewer with
        late := fun _ _ _ => rfl
        vacant := fun _ => ⟨h1, h2, h3⟩
        idle := fun _ => hwriting
        unhit := fun _ => hgets
        cleared1 := fun hr => absurd rfl hr
        cleared2 := fun hr => by cases hr }

theorem Inv.step (h : s.Inv) {e : Step V} (hc : s.Careful e) : ((cacheRaceSys V).step s e).Inv := by
  cases e with
  | startGet =>
    refine h.setGets fun t ht => ?_
    rcases List.mem_append.1 ht with hin | hnew
    · exact Or.inl hin
    · rw [List.mem_singleton.1 hnew]
      exact Or.inr ⟨id, fun _ => id, fun v hv => (hv.hit : False).elim⟩
  | get i f => exact h.getStep
  | startInsert verified value => exact h.startInsert verified value
  | insert i f => exact h.insertStep
  | startRemove => exact h.startRemove
  | remove f => exact h.removeStep hc
  | advance elapsed => exact { h with }

/-! What is answered -/

/-- A get that is late has nothing to answer. -/
theorem Inv.late_none (h : s.Inv) (v : Stamped V) : (s.getStep i f).1 ≠ some (.got true (.ok (some v))) := by
  have ho := getStep_outcome s i f
  generalize s.getStep i f = r at ho ⊢
  cases ho with
  | waits => simp
  | misses ht hmiss => simp
  | @answersL1 t e ht he =>
    intro heq
    have hlate : t.late = true := by
      simp only [Option.some.injEq, Answer.got.injEq] at heq
      exact heq.1
    rw [(h.vacant (h.late t (List.mem_of_getElem? ht) hlate)).1] at he
    cases he
  | hitsL2 ht he => simp
  | hitsL3 ht he => simp
  | answersNone ht hr hl3 =>
    intro heq
    simp only [Option.some.injEq, Answer.got.injEq] at heq
    exact hr v heq.2
  | promotesL2 ht hstage hlocked => simp
  | @promotesL1 t u ht hstage hlocked =>
    intro heq
    have hlate : t.late = true := by
      simp only [Option.some.injEq, Answer.got.injEq] at heq
      exact heq.1
    have hremoved := h.late t (List.mem_of_getElem? ht) hlate
    rw [h.not_removed_of_hit ht (by rw [hstage]; trivial)] at hremoved
    cases hremoved

/-- The next insert's value is nowhere yet. -/
theorem Inv.not_holding (h : s.Inv) {v : Stamped V} (hv : v.serial = s.inserts) : ¬ s.Holding v := by
  rintro (⟨e, he, rfl⟩ | ⟨e, he, rfl⟩ | ⟨e, he, rfl⟩)
  · exact absurd (h.numbered1 e he) (by omega)
  · exact absurd (h.numbered2 e he) (by omega)
  · exact absurd (h.numbered3 e he) (by omega)

theorem getStep_not_inserted (v : Stamped V) (r : Except CacheError Unit) : (s.getStep i f).1 ≠ some (.inserted v r) := by
  have ho := getStep_outcome s i f
  generalize s.getStep i f = o at ho ⊢
  cases ho with
  | waits => simp
  | misses ht hmiss => simp
  | answersL1 ht he => simp
  | hitsL2 ht he => simp
  | hitsL3 ht he => simp
  | answersNone ht hr hl3 => simp
  | promotesL2 ht hstage hlocked => simp
  | promotesL1 ht hstage hlocked => simp

/-- An insert answers when the disk has answered it. -/
theorem insertStep_answer {a : Answer V} (h : (s.insertStep i f).1 = some a) :
    ∃ t, s.writing[i]? = some t ∧ t.stage = .l3 ∧
      a = .inserted t.value (s.cache.l3Insert f s.key t.value s.now).1 := by
  unfold insertStep at h
  cases ht : s.writing[i]? with
  | none =>
    rw [ht] at h
    cases h
  | some t =>
    rw [ht] at h
    dsimp only at h
    cases hstage : t.stage with
    | l1 =>
      rw [hstage] at h
      dsimp only at h
      split_ifs at h
    | l2 =>
      rw [hstage] at h
      dsimp only at h
      split_ifs at h
    | l3 =>
      rw [hstage] at h
      exact ⟨t, rfl, hstage, (Option.some.inj h).symm⟩

theorem removeStep_answer {a : Answer V} (h : (s.removeStep f).1 = some a) : a = .removed := by
  unfold removeStep at h
  cases hr : s.removing with
  | none =>
    rw [hr] at h
    cases h
  | some stage =>
    rw [hr] at h
    cases stage with
    | l1 => cases h
    | l1l2 => exact (Option.some.inj h).symm

theorem Inv.right (h : s.Inv) {e : Step V} (hc : s.Careful e) : s.Right e := by
  cases e with
  | startGet => exact ⟨fun _ => (by simp [run]), fun _ _ heq => (by simp [run] at heq)⟩
  | get i f => exact ⟨fun v => h.late_none v, fun v error heq => absurd heq (getStep_not_inserted v _)⟩
  | startInsert verified value =>
    cases verified with
    | false =>
      refine ⟨fun v => by simp [run, CacheRace.startInsert], fun v error heq => ?_⟩
      obtain ⟨rfl, -⟩ : ⟨value, s.inserts, s.now⟩ = v ∧ CacheError.signatureVerification = error := by
        simpa [run, CacheRace.startInsert] using heq
      exact h.not_holding rfl
    | true => exact ⟨fun v => by simp [run, CacheRace.startInsert],
        fun v error heq => by simp [run, CacheRace.startInsert] at heq⟩
  | insert i f =>
    refine ⟨fun v heq => ?_, fun v error heq => ?_⟩
    · obtain ⟨t, -, -, ha⟩ := insertStep_answer heq
      cases ha
    · obtain ⟨t, ht, hstage, ha⟩ := insertStep_answer heq
      rw [l3Insert, hc t ht hstage] at ha
      cases ha
  | startRemove => exact ⟨fun _ => (by simp [run]), fun _ _ heq => (by simp [run] at heq)⟩
  | remove f =>
    refine ⟨fun v heq => ?_, fun v error heq => ?_⟩
    · cases removeStep_answer heq
    · cases removeStep_answer heq
  | advance elapsed => exact ⟨fun _ => (by simp [run]), fun _ _ heq => (by simp [run] at heq)⟩

end CacheRace

namespace CacheRemoval
open StepSystem CacheRace

/-- In every interleaving from an empty cache in which no remove completes while somebody is on the way with a value,
or without the disk, and in which the disk takes what is inserted: a get that starts after a remove has completed
answers nothing until an insert begins, and an insert that fails leaves its value in no layer. -/
theorem removal_final (V : Type) (s : CacheRace V) (hs : (cacheRaceSys V).init s) (es : List (Step V))
    (hc : Guarded (cacheRaceSys V) Careful s es) : Guarded (cacheRaceSys V) Right s es :=
  Guarded.imp (fun _ _ h hc => h.right hc) (fun _ _ h hc => h.step hc) (inv_init hs) hc

def sound : DiskFaults := ⟨false, false, false⟩

def start : CacheRace ℕ := ⟨"did:b", .empty, 0, 0, [], [], none, false⟩

/-- A value is inserted and removed, and asked for. -/
theorem removal_final_once : Guarded (cacheRaceSys ℕ) Right start [.startInsert true 7, .insert 0 sound, .insert 0 sound,
    .insert 0 sound, .startRemove, .remove sound, .remove sound, .startGet, .get 0 sound] := by
  refine removal_final ℕ start ⟨rfl, rfl, rfl, rfl, rfl⟩ _ ⟨trivial, fun _ _ _ => rfl, fun _ _ _ => rfl,
    fun _ _ _ => rfl, trivial, fun hr => ?_, fun _ => ⟨fun t ht => ?_, rfl, fun hf => ?_⟩, trivial, trivial, trivial⟩
  · cases hr
  · cases ht
  · cases hf

/-- The value has left memory after an hour; a get that found it on disk promotes it when it has been removed. -/
def resurrection : List (Step ℕ) :=
  [.startInsert true 7, .insert 0 sound, .insert 0 sound, .insert 0 sound, .advance (4000 * nanosPerSec), .startGet,
    .get 0 sound, .get 0 sound, .get 0 sound, .startRemove, .remove sound, .remove sound, .get 0 sound, .get 0 sound,
    .startGet, .get 0 sound]

theorem removed_comes_back : ¬ ∀ (s : CacheRace ℕ) (es : List (Step ℕ)), (cacheRaceSys ℕ).init s →
    Guarded (cacheRaceSys ℕ) Right s es := by
  intro h
  obtain ⟨-, -, -, -, -, -, -, -, -, -, -, -, -, -, -, ⟨hlate, -⟩, -⟩ :=
    h start resurrection ⟨rfl, rfl, rfl, rfl, rfl⟩
  exact hlate ⟨7, 0, 0⟩ (by decide +kernel)

end CacheRemoval
end Variance
