import Variance.Spec.Typing

/-! Nothing is lost of the typing map, and nothing missed, if entries are removed only when nobody has use for them. -/

namespace Variance
namespace TypingRace
open Variance.TypingRace.Task
variable {s : TypingRace} {i : ℕ} {t t' : Task} {d : Did} {time : ℤ} {x : Did × ℤ} {c : Call}
  {entry : Option (List (Did × ℤ))}

/-- The sender is in the entry with a start no earlier, or about to be, or the time is over. -/
def Covered (s : TypingRace) (d : Did) (time : ℤ) : Prop :=
  (∃ later, time ≤ later ∧ (d, later) ∈ s.entry.getD []) ∨ (∃ later, time ≤ later ∧ .startPush (d, later) ∈ s.tasks) ∨
    s.timeoutMs ≤ s.now - time

structure Inv (s : TypingRace) : Prop where
  present : ∀ x, .startPush x ∈ s.tasks → s.entry ≠ none
  covered : ∀ d time, s.Entered d time → s.Covered d time
  sampled : ∀ now c, .expire now c ∈ s.tasks → now ≤ s.now

/-! Tasks -/

theorem mem_set_of_ne {l : List Task} (ht : l[i]? = some t) (hx : t' ∈ l) (hne : t' ≠ t) (new : Task) :
    t' ∈ l.set i new := by
  obtain ⟨j, hj⟩ := List.mem_iff_getElem?.1 hx
  refine List.mem_iff_getElem?.2 ⟨j, ?_⟩
  rw [List.getElem?_set_ne]
  · exact hj
  · rintro rfl
    exact hne (Option.some.inj (hj.symm.trans ht))

theorem stopped_startPush {b : Did} : Task.stopped b t = .startPush x ↔ t = .startPush x := by
  cases t <;> simp [Task.stopped]

theorem stopped_expire {b : Did} {now : ℤ} (h : Task.stopped b t = .expire now c) : ∃ c', t = .expire now c' := by
  cases t <;> simp [Task.stopped] at h
  exact ⟨_, by rw [h.1]⟩

theorem Call.stopped_entered {b : Did} (h : (c.stopped b).entered? = some x) : c.entered? = some x ∧ x.1 ≠ b := by
  cases c with
  | start indicator standing =>
    by_cases hb : indicator.1 = b
    · simp [Call.stopped, hb, Call.entered?] at h
    · have hsame : Call.stopped b (.start indicator standing) = .start indicator standing := by
        simp [Call.stopped, hb]
      rw [hsame] at h
      refine ⟨h, ?_⟩
      cases standing with
      | false => cases h
      | true =>
        cases h
        exact hb
  | stop => cases h
  | query => cases h
  | cleanup => cases h

/-- What a stop leaves entered is not its sender's. -/
theorem stopped_entered {b : Did} (h : (Task.stopped b t).entered? = some x) : t.entered? = some x ∧ x.1 ≠ b := by
  cases t with
  | sample c => exact Call.stopped_entered h
  | expire now c => exact Call.stopped_entered h
  | remove c => exact Call.stopped_entered h
  | startRetain y => cases h
  | startPush y => cases h
  | stopRetain y => cases h
  | stopRemove => cases h
  | read => cases h
  | done => cases h
  | panicked => cases h

/-! The steps -/

theorem Covered.mono {s' : TypingRace} (h : s.Covered d time) (ht : s'.timeoutMs = s.timeoutMs) (hn : s.now ≤ s'.now)
    (he : ∀ later, (d, later) ∈ s.entry.getD [] → s'.Covered d later)
    (hp : ∀ later, .startPush (d, later) ∈ s.tasks → s'.Covered d later) : s'.Covered d time := by
  have hlater : ∀ later, time ≤ later → s'.Covered d later → s'.Covered d time := by
    rintro later hle (⟨l, hl, hm⟩ | ⟨l, hl, hm⟩ | hover)
    · exact Or.inl ⟨l, hle.trans hl, hm⟩
    · exact Or.inr (Or.inl ⟨l, hle.trans hl, hm⟩)
    · exact Or.inr (Or.inr (by omega))
  rcases h with ⟨later, hle, hm⟩ | ⟨later, hle, hm⟩ | hover
  · exact hlater later hle (he later hm)
  · exact hlater later hle (hp later hm)
  · exact Or.inr (Or.inr (by omega))

theorem covered_of_mem (h : (d, time) ∈ s.entry.getD []) : s.Covered d time := Or.inl ⟨time, le_refl _, h⟩

theorem covered_of_push (h : .startPush (d, time) ∈ s.tasks) : s.Covered d time := Or.inr (Or.inl ⟨time, le_refl _, h⟩)

theorem entered_of_task (hi : s.tasks[i]? = some t) (h : t.entered? = some x) : s.Entered x.1 x.2 :=
  Or.inr ⟨t, List.mem_of_getElem? hi, h⟩

/-- A task goes on that is between no two operations of a start, and the entry loses nothing of use. -/
theorem Inv.goOn {standing : Did → Option ℤ} (h : s.Inv) (hi : s.tasks[i]? = some t) (hold : ∀ x, t ≠ .startPush x)
    (new : Task) (hnew : ∀ x, new ≠ .startPush x) (hsample : ∀ now c, new = .expire now c → now ≤ s.now)
    (hent : ∀ x, new.entered? = some x → s.Entered x.1 x.2)
    (hstanding : ∀ d time, standing d = some time → s.Entered d time)
    (hpresent : ∀ x, .startPush x ∈ s.tasks → entry ≠ none)
    (hentry : ∀ x ∈ s.entry.getD [], x ∈ entry.getD [] ∨ s.timeoutMs ≤ s.now - x.2) :
    Inv { s with tasks := s.tasks.set i new, entry := entry, standing := standing } := by
  have hpush : ∀ x, .startPush x ∈ s.tasks.set i new ↔ .startPush x ∈ s.tasks := by
    intro x
    constructor
    · intro hm
      rcases List.mem_or_eq_of_mem_set hm with hm | hm
      · exact hm
      · exact (hnew x hm.symm).elim
    · intro hm
      exact mem_set_of_ne hi hm (fun heq => hold x heq.symm) new
  refine ⟨fun x hm => hpresent x ((hpush x).1 hm), fun d time he => ?_, fun now c hm => ?_⟩
  · have hcov : s.Covered d time := by
      rcases he with hs | ⟨t', hm, ht'⟩
      · exact h.covered d time (hstanding d time hs)
      · rcases List.mem_or_eq_of_mem_set hm with hm | rfl
        · exact h.covered d time (Or.inr ⟨t', hm, ht'⟩)
        · exact h.covered d time (hent _ ht')
    refine hcov.mono rfl (le_refl _) (fun later hl => ?_) fun later hl => covered_of_push ((hpush _).2 hl)
    rcases hentry _ hl with hl | hl
    · exact covered_of_mem hl
    · exact Or.inr (Or.inr hl)
  · rcases List.mem_or_eq_of_mem_set hm with hm | hm
    · exact h.sampled now c hm
    · exact hsample now c hm.symm

/-- The end of a call has nothing to do with the entry. -/
theorem finish_entry (c : Call) (entry : Option (List (Did × ℤ))) :
    TypingRace.finish { s with entry := entry } i c = { s.finish i c with entry := entry } := by
  cases c <;> rfl

/-- The end of a cleanup, with what it makes of the entry. -/
theorem Inv.finish (h : s.Inv) (hi : s.tasks[i]? = some t) (hc : t.call? = some c)
    (hpresent : ∀ x, .startPush x ∈ s.tasks → entry ≠ none)
    (hentry : ∀ x ∈ s.entry.getD [], x ∈ entry.getD [] ∨ s.timeoutMs ≤ s.now - x.2) :
    Inv { s.finish i c with entry := entry } := by
  have hold : ∀ x, t ≠ .startPush x := by
    rintro x rfl
    cases hc
  cases c with
  | start indicator standing =>
    refine h.goOn hi hold .done (by simp) (by simp) (fun x hx => by cases hx) ?_ hpresent hentry
    intro d time hs
    cases standing with
    | false => exact Or.inl hs
    | true =>
      have hself : s.Entered indicator.1 indicator.2 := entered_of_task hi (by rw [entered?, hc]; rfl)
      unfold TypingRace.finish at hs
      dsimp only at hs
      rw [if_pos rfl, Function.update_apply] at hs
      split_ifs at hs with hd
      · cases hd
        cases hst : s.standing indicator.1 with
        | none =>
          rw [hst] at hs
          cases hs
          exact hself
        | some old =>
          rw [hst] at hs
          dsimp only at hs
          cases hs
          rcases max_choice old indicator.2 with hm | hm
          · rw [hm]
            exact Or.inl hst
          · rw [hm]
            exact hself
      · exact Or.inl hs
  | stop =>
    exact h.goOn hi hold .done (by simp) (by simp) (fun x hx => by cases hx) (fun d time => Or.inl) hpresent hentry
  | query =>
    exact h.goOn hi hold .read (by simp) (by simp) (fun x hx => by cases hx) (fun d time => Or.inl) hpresent hentry
  | cleanup =>
    exact h.goOn hi hold .done (by simp) (by simp) (fun x hx => by cases hx) (fun d time => Or.inl) hpresent hentry

theorem Inv.startRetain (h : s.Inv) (hi : s.tasks[i]? = some (.startRetain x))
    (hg : ∀ time, s.Entered x.1 time → time ≤ x.2) : (s.runTask i (.startRetain x)).Inv := by
  have hnew : .startPush x ∈ s.tasks.set i (.startPush x) :=
    List.mem_iff_getElem?.2 ⟨i, List.getElem?_set_self (List.getElem?_eq_some_iff.1 hi).1⟩
  have hold : ∀ t ∈ s.tasks.set i (.startPush x), t = .startPush x ∨ t ∈ s.tasks :=
    fun t ht => (List.mem_or_eq_of_mem_set ht).symm
  have hent : ∀ d time, (s.runTask i (.startRetain x)).Entered d time → s.Entered d time := by
    rintro d time (hs | ⟨t, hm, ht⟩)
    · exact Or.inl hs
    · rcases hold t hm with rfl | hm
      · cases ht
      · exact Or.inr ⟨t, hm, ht⟩
  refine ⟨fun _ _ => Option.some_ne_none _, fun d time he => ?_, fun now c hm => ?_⟩
  · have he := hent d time he
    by_cases hd : d = x.1
    · subst hd
      exact Or.inr (Or.inl ⟨x.2, hg time he, hnew⟩)
    · refine (h.covered d time he).mono rfl (le_refl _) (fun later hl => covered_of_mem ?_) fun later hl => covered_of_push ?_
      · exact List.mem_filter.2 ⟨hl, by simpa using hd⟩
      · exact mem_set_of_ne hi hl (by simp) _
  · rcases hold _ hm with hm | hm
    · cases hm
    · exact h.sampled now c hm

theorem Inv.startPush (h : s.Inv) (hi : s.tasks[i]? = some (.startPush x)) : (s.runTask i (.startPush x)).Inv := by
  obtain ⟨l, hl⟩ := Option.ne_none_iff_exists'.1 (h.present x (List.mem_of_getElem? hi))
  have hold : ∀ t ∈ s.tasks.set i (.sample (.start x true)), t = .sample (.start x true) ∨ t ∈ s.tasks :=
    fun t ht => (List.mem_or_eq_of_mem_set ht).symm
  have hrun : s.runTask i (.startPush x) = { s.set i (.sample (.start x true)) with entry := some (l ++ [x]) } := by
    simp [runTask, hl]
  rw [hrun]
  have hself : Covered { s.set i (.sample (.start x true)) with entry := some (l ++ [x]) } x.1 x.2 :=
    covered_of_mem (by simp)
  refine ⟨fun _ _ => Option.some_ne_none _, fun d time he => ?_, fun now c hm => ?_⟩
  · have hcov : s.Covered d time → Covered { s.set i (.sample (.start x true)) with entry := some (l ++ [x]) } d time := by
      intro hc
      refine hc.mono rfl (le_refl _) (fun later hm => covered_of_mem ?_) fun later hm => ?_
      · rw [hl] at hm
        exact List.mem_append_left _ hm
      · by_cases hx : (d, later) = x
        · subst hx
          exact hself
        · exact covered_of_push (mem_set_of_ne hi hm (by simpa using hx) _)
    rcases he with hs | ⟨t, hm, ht⟩
    · exact hcov (h.covered d time (Or.inl hs))
    · rcases hold t hm with rfl | hm
      · cases ht
        exact hself
      · exact hcov (h.covered d time (Or.inr ⟨t, hm, ht⟩))
  · rcases hold _ hm with hm | hm
    · cases hm
    · exact h.sampled now c hm

/-- A stop: its sender is out, and everybody else as before. -/
theorem Inv.stop {b : Did} {new : Task} (h : s.Inv) (hi : s.tasks[i]? = some (.stopRetain b))
    (hnew : new = .stopRemove ∨ new = .sample .stop)
    (hpresent : s.entry ≠ none → entry ≠ none)
    (hentry : ∀ x ∈ s.entry.getD [], x.1 ≠ b → x ∈ entry.getD []) :
    Inv { s with
      tasks := (s.tasks.map (stopped b)).set i new
      standing := Function.update s.standing b none
      entry := entry } := by
  have hold : ∀ t ∈ (s.tasks.map (stopped b)).set i new, t = new ∨ ∃ t' ∈ s.tasks, stopped b t' = t := by
    intro t ht
    rcases List.mem_or_eq_of_mem_set ht with hm | hm
    · exact Or.inr (List.mem_map.1 hm)
    · exact Or.inl hm
  have hi' : (s.tasks.map (stopped b))[i]? = some (.stopRetain b) := by
    rw [List.getElem?_map, hi]
    rfl
  have hpush : ∀ x, .startPush x ∈ s.tasks → .startPush x ∈ (s.tasks.map (stopped b)).set i new := by
    intro x hm
    exact mem_set_of_ne hi' (List.mem_map.2 ⟨_, hm, rfl⟩) (by simp [stopped]) _
  have hnone : new.entered? = none ∧ (∀ x, new ≠ .startPush x) ∧ ∀ now c, new ≠ .expire now c := by
    rcases hnew with rfl | rfl
    · simp [entered?, call?]
    · simp [entered?, call?, Call.entered?]
  refine ⟨fun x hm => ?_, fun d time he => ?_, fun now c hm => ?_⟩
  · rcases hold _ hm with hm | ⟨t', hm, heq⟩
    · exact (hnone.2.1 x hm.symm).elim
    · rw [stopped_startPush.1 heq] at hm
      exact hpresent (h.present x hm)
  · have hbefore : s.Entered d time ∧ d ≠ b := by
      rcases he with hs | ⟨t, hm, ht⟩
      · have hs : Function.update s.standing b none d = some time := hs
        rw [Function.update_apply] at hs
        split_ifs at hs with hd
        exact ⟨Or.inl hs, hd⟩
      · rcases hold t hm with rfl | ⟨t', hm', rfl⟩
        · rw [hnone.1] at ht
          cases ht
        · obtain ⟨ht, hd⟩ := stopped_entered ht
          exact ⟨Or.inr ⟨t', hm', ht⟩, hd⟩
    refine (h.covered d time hbefore.1).mono rfl (le_refl _) (fun later hl => ?_) fun later hl => ?_
    · exact covered_of_mem (hentry _ hl hbefore.2)
    · exact covered_of_push (hpush _ hl)
  · rcases hold _ hm with hm | ⟨t', hm, heq⟩
    · exact (hnone.2.2 now c hm.symm).elim
    · obtain ⟨c', rfl⟩ := stopped_expire heq
      exact h.sampled now c' hm

theorem Inv.runTask (h : s.Inv) (hi : s.tasks[i]? = some t) (hg : s.Careful (.run i)) : (s.runTask i t).Inv := by
  have hkeep : ∀ x ∈ s.entry.getD [], x ∈ s.entry.getD [] ∨ s.timeoutMs ≤ s.now - x.2 := fun x hx => Or.inl hx
  unfold Careful at hg
  dsimp only at hg
  rw [hi] at hg
  cases t with
  | startRetain x => exact h.startRetain hi hg
  | startPush x => exact h.startPush hi
  | stopRetain b =>
    unfold TypingRace.runTask
    dsimp only
    cases hent : s.entry with
    | none =>
      have hstop := h.stop hi (Or.inr rfl) id fun x hx _ => hx
      rw [hent] at hstop
      exact hstop
    | some l =>
      dsimp only
      refine h.stop hi ?_ (fun _ => Option.some_ne_none _) fun x hx hne => ?_
      · split_ifs
        · exact Or.inl rfl
        · exact Or.inr rfl
      · rw [hent] at hx
        exact List.mem_filter.2 ⟨hx, by simpa using hne⟩
  | stopRemove =>
    exact h.goOn hi (by simp) (.sample .stop) (by simp) (by simp) (fun x hx => by cases hx) (fun d time => Or.inl)
      (fun x hx => (hg.2 x hx).elim) fun x hx => Or.inr (hg.1 x hx)
  | sample c =>
    refine h.goOn hi (by simp) (.expire s.now c) (by simp) ?_ ?_ (fun d time => Or.inl) h.present hkeep
    · intro now c' heq
      cases heq
      exact le_refl _
    · intro x hx
      exact entered_of_task hi hx
  | expire now c =>
    have hnow : now ≤ s.now := h.sampled now c (List.mem_of_getElem? hi)
    have hfilter : ∀ l, s.entry = some l → ∀ x ∈ s.entry.getD [],
        x ∈ (some (l.filter fun x => now - x.2 < s.timeoutMs)).getD [] ∨ s.timeoutMs ≤ s.now - x.2 := by
      intro l hl x hx
      by_cases hlive : now - x.2 < s.timeoutMs
      · rw [hl] at hx
        exact Or.inl (List.mem_filter.2 ⟨hx, by simpa using hlive⟩)
      · right
        omega
    unfold TypingRace.runTask
    dsimp only
    cases hent : s.entry with
    | none =>
      have hsame : s.finish i c = { s.finish i c with entry := s.entry } := finish_entry c s.entry
      dsimp only
      rw [hsame]
      exact h.finish hi rfl h.present hkeep
    | some l =>
      dsimp only
      split_ifs
      · exact h.goOn hi (by simp) (.remove c) (by simp) (by simp) (fun x hx => entered_of_task hi hx)
          (fun d time => Or.inl) (fun _ _ => Option.some_ne_none _) (hfilter l hent)
      · rw [finish_entry]
        exact h.finish hi rfl (fun _ _ => Option.some_ne_none _) (hfilter l hent)
  | remove c =>
    exact h.finish hi rfl (fun x hx => (hg.2 x hx).elim) fun x hx => Or.inr (hg.1 x hx)
  | read =>
    exact h.goOn hi (by simp) .done (by simp) (by simp) (fun x hx => by cases hx) (fun d time => Or.inl) h.present hkeep
  | done => exact h
  | panicked => exact h

theorem Inv.spawn {new : Task} (h : s.Inv) (hnew : (∃ x, new = .startRetain x) ∨ (∃ b, new = .stopRetain b) ∨
    new = .sample .query ∨ new = .sample .cleanup) : (s.spawn new).Inv := by
  have hnone : new.entered? = none ∧ (∀ x, new ≠ .startPush x) ∧ ∀ now c, new ≠ .expire now c := by
    rcases hnew with ⟨x, rfl⟩ | ⟨b, rfl⟩ | rfl | rfl
    · simp [entered?, call?]
    · simp [entered?, call?]
    · simp [entered?, call?, Call.entered?]
    · simp [entered?, call?, Call.entered?]
  have hold : ∀ t ∈ s.tasks ++ [new], t ∈ s.tasks ∨ t = new := by
    intro t ht
    simpa using ht
  refine ⟨fun x hm => ?_, fun d time he => ?_, fun now c hm => ?_⟩
  · rcases hold _ hm with hm | hm
    · exact h.present x hm
    · exact (hnone.2.1 x hm.symm).elim
  · have hbefore : s.Entered d time := by
      rcases he with hs | ⟨t, hm, ht⟩
      · exact Or.inl hs
      · rcases hold t hm with hm | rfl
        · exact Or.inr ⟨t, hm, ht⟩
        · rw [hnone.1] at ht
          cases ht
    exact (h.covered d time hbefore).mono rfl (le_refl _) (fun later hl => covered_of_mem hl) fun later hl =>
      covered_of_push (List.mem_append_left _ hl)
  · rcases hold _ hm with hm | hm
    · exact h.sampled now c hm
    · exact (hnone.2.2 now c hm.symm).elim

theorem Inv.next (h : s.Inv) (e : Step) (hg : s.Careful e) : (s.next e).Inv := by
  cases e with
  | receiveIndicator b isTyping time =>
    refine h.spawn ?_
    cases isTyping with
    | true => exact Or.inl ⟨_, rfl⟩
    | false => exact Or.inr (Or.inl ⟨_, rfl⟩)
  | getTypingUsers => exact h.spawn (Or.inr (Or.inr (Or.inl rfl)))
  | cleanupExpired => exact h.spawn (Or.inr (Or.inr (Or.inr rfl)))
  | run i =>
    unfold TypingRace.next
    dsimp only
    cases hi : s.tasks[i]? with
    | none => exact h
    | some t => exact h.runTask hi hg
  | advance elapsed =>
    refine ⟨h.present, fun d time he => ?_, fun now c hm => ?_⟩
    · have hnow : s.now ≤ s.now + elapsed := by omega
      exact (h.covered d time he).mono rfl hnow (fun later hl => covered_of_mem hl) fun later hl => covered_of_push hl
    · have hnow : s.now ≤ s.now + elapsed := by omega
      exact (h.sampled now c hm).trans hnow

theorem Inv.right (h : s.Inv) (e : Step) (hg : s.Careful e) : s.Right e := by
  cases e with
  | run i =>
    unfold Right
    unfold Careful at hg
    dsimp only at hg ⊢
    cases hi : s.tasks[i]? with
    | none => trivial
    | some t =>
      rw [hi] at hg
      cases t with
      | startPush x => exact h.present x (List.mem_of_getElem? hi)
      | read =>
        intro d time hs hlive
        rcases h.covered d time (Or.inl hs) with ⟨later, -, hm⟩ | ⟨later, -, hm⟩ | hover
        · exact List.mem_map.2 ⟨_, hm, rfl⟩
        · have := hg (d, later) hm time hs
          omega
        · omega
      | _ => trivial
  | _ => trivial

/-- No run whose steps all meet the condition loses or misses an indicator, or panics. -/
theorem typing_races_right {s : TypingRace} (hs : typingRaceSys.init s) {es : List Step}
    (hg : StepSystem.Guarded typingRaceSys Careful s es) : StepSystem.Guarded typingRaceSys Right s es := by
  refine hg.imp (I := Inv) (fun s e h hg => h.right e hg) (fun s e h hg => h.next e hg) ?_
  obtain ⟨hent, htasks, hstanding⟩ := hs
  refine ⟨fun x hm => ?_, fun d time he => ?_, fun now c hm => ?_⟩
  · rw [htasks] at hm
    cases hm
  · rcases he with hd | ⟨t, hm, -⟩
    · rw [hstanding] at hd
      cases hd
    · rw [htasks] at hm
      cases hm
  · rw [htasks] at hm
    cases hm

end TypingRace

namespace TypingRaces
open TypingRace

def quiet : TypingRace := ⟨5000, 0, none, [], fun _ => none⟩

/-- A cleanup finds the entry empty, and takes it from under a start. -/
def takesEntry : List Step :=
  [.receiveIndicator "did:b" true 0, .cleanupExpired, .run 0, .run 1, .run 1, .run 1, .run 0]

/-- A cleanup finds the entry empty, and takes it with what a start has entered since. -/
def takesIndicator : List Step :=
  [.receiveIndicator "did:b" true 0, .cleanupExpired, .run 0, .run 1, .run 1, .run 0, .run 1, .run 0, .run 0,
    .getTypingUsers, .run 2, .run 2, .run 2]

theorem panics_and_loses : ¬ StepSystem.Guarded typingRaceSys Right quiet takesEntry ∧
    ¬ StepSystem.Guarded typingRaceSys Right quiet takesIndicator := by
  constructor
  · rintro ⟨-, -, -, -, -, -, hpush, -⟩
    exact hpush rfl
  · rintro ⟨-, -, -, -, -, -, -, -, -, -, -, -, hread, -⟩
    have hmem := hread "did:b" 0 rfl (by decide)
    cases hmem

/-- A start, and a query after it. -/
theorem start_then_query : StepSystem.Guarded typingRaceSys Right quiet
    [.receiveIndicator "did:b" true 0, .run 0, .run 0, .run 0, .run 0, .getTypingUsers, .run 1, .run 1, .run 1] := by
  refine typing_races_right ⟨rfl, rfl, rfl⟩ ⟨trivial, fun time h => ?_, trivial, trivial, trivial, trivial, trivial,
    trivial, fun x h => ?_, trivial⟩
  · rcases h with h | ⟨t, ht, he⟩
    · cases h
    · cases List.mem_singleton.1 ht
      cases he
  · have hnone : ∀ t ∈ [Task.done, .read], t ≠ .startPush x := by simp
    exact (hnone _ h rfl).elim

end TypingRaces
end Variance
