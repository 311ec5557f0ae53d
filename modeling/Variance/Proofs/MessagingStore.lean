import Variance.Spec.MessagingStore

/-! Timers go by a text that is put together from two, and the indicators by the two. -/

namespace Variance
namespace MessagingStore

variable {s : MessagingStore} {p q : TypingPair} {t t' n : ℕ} {k oldKey : String} {isTyping : Bool}
  {users : InsertionMap String (Finset String)} {c : Option ActiveConversation}

/-! The indicators -/

/-- Only the one sender's indicator in the one conversation changes. -/
theorem mem_mark : q.sender ∈ ((mark users p isTyping).get q.recipient).getD ∅ ↔
    if q = p then isTyping = true else q.sender ∈ (users.get q.recipient).getD ∅ := by
  have hcurrent : q.sender ∈ ((mark users p isTyping).get q.recipient).getD ∅ ↔
      q.sender ∈ if p.recipient = q.recipient then
        (if isTyping then insert p.sender ((users.get p.recipient).getD ∅)
          else ((users.get p.recipient).getD ∅).erase p.sender)
        else (users.get q.recipient).getD ∅ := by
    unfold mark
    dsimp only
    split_ifs with hempty hr hr
    all_goals simp_all [InsertionMap.get_delete, InsertionMap.get_set]
  rw [hcurrent]
  by_cases hr : p.recipient = q.recipient
  · rw [if_pos hr]
    by_cases hs : q.sender = p.sender
    · rw [if_pos (show q = p by cases p; cases q; simp_all)]
      cases isTyping <;> simp [hs]
    · rw [if_neg fun h => hs (congrArg TypingPair.sender h)]
      cases isTyping <;> simp [hs, hr]
  · rw [if_neg hr, if_neg fun h => hr (congrArg TypingPair.recipient h).symm]

/-! The timers -/

theorem clearPrefixed_timeouts {timers : List (String × ℕ)} :
    (s.clearPrefixed oldKey timers).timeouts.get t = some p ↔
      s.timeouts.get t = some p ∧ ∀ e ∈ timers, Text.HasPrefix (oldKey ++ "::") e.1 → e.2 ≠ t := by
  induction timers generalizing s with
  | nil => exact (and_iff_left (fun _ h => absurd h List.not_mem_nil)).symm
  | cons e timers ih =>
    rw [List.forall_mem_cons]
    unfold clearPrefixed at ih ⊢
    rw [List.foldl_cons, ih]
    by_cases hp : Text.HasPrefix (oldKey ++ "::") e.1
    · rw [if_pos hp]
      unfold clear
      rw [InsertionMap.get_delete]
      by_cases he : e.2 = t
      · simp [he, hp]
      · simp [he]
    · simp [hp]

theorem clearPrefixed_timers {timers : List (String × ℕ)} :
    (s.clearPrefixed oldKey timers).typingExpireTimers.get k = some t ↔
      s.typingExpireTimers.get k = some t ∧ ∀ e ∈ timers, Text.HasPrefix (oldKey ++ "::") e.1 → e.1 ≠ k := by
  induction timers generalizing s with
  | nil => exact (and_iff_left (fun _ h => absurd h List.not_mem_nil)).symm
  | cons e timers ih =>
    rw [List.forall_mem_cons]
    unfold clearPrefixed at ih ⊢
    rw [List.foldl_cons, ih]
    by_cases hp : Text.HasPrefix (oldKey ++ "::") e.1
    · rw [if_pos hp]
      unfold clear
      rw [InsertionMap.get_delete]
      by_cases he : e.1 = k
      · subst he
        simp [hp]
      · simp [he]
    · simp [hp]

@[simp] theorem clearPrefixed_nextTimer {timers : List (String × ℕ)} :
    (s.clearPrefixed oldKey timers).nextTimer = s.nextTimer := by
  induction timers generalizing s with
  | nil => rfl
  | cons e timers ih =>
    unfold clearPrefixed at ih ⊢
    rw [List.foldl_cons, ih]
    split_ifs <;> rfl

/-! What holds while no two pairs have met in one key -/

structure Inv (s : MessagingStore) : Prop where
  shown : ∀ p, s.Shows p ↔ ∃ t, s.timeouts.get t = some p
  keyed : ∀ k t, s.typingExpireTimers.get k = some t ↔ ∃ p, s.timeouts.get t = some p ∧ p.timerKey = k
  fresh : ∀ t p, s.timeouts.get t = some p → t < s.nextTimer

theorem inv_new : new.Inv where
  shown p := by simp [Shows, new]
  keyed k t := by simp [new]
  fresh t p h := by simp [new] at h

theorem Inv.timer (h : s.Inv) (ht : s.timeouts.get t = some p) : s.typingExpireTimers.get p.timerKey = some t :=
  (h.keyed _ t).2 ⟨p, ht, rfl⟩

theorem Inv.expiring (h : s.Inv) : s.Expiring where
  shown := h.shown
  single _ _ _ ht ht' := Option.some.inj ((h.timer ht).symm.trans (h.timer ht'))

/-- To cancel a key is to take away what is pending under it. -/
theorem Inv.cancel_timeouts (h : s.Inv) :
    (s.cancel k).timeouts.get t = some q ↔ s.timeouts.get t = some q ∧ q.timerKey ≠ k := by
  unfold cancel
  cases hk : s.typingExpireTimers.get k with
  | none =>
    refine (and_iff_left_of_imp fun ht hq => ?_).symm
    rw [← hq, h.timer ht] at hk
    cases hk
  | some existing =>
    dsimp only [clear]
    rw [InsertionMap.get_delete]
    by_cases he : existing = t
    · rw [if_pos he]
      subst he
      obtain ⟨p, hp, hkey⟩ := (h.keyed k existing).1 hk
      constructor
      · intro hq
        cases hq
      · rintro ⟨hq, hne⟩
        rw [hp] at hq
        cases hq
        exact (hne hkey).elim
    · rw [if_neg he]
      refine (and_iff_left_of_imp fun ht hq => he ?_).symm
      rw [← hq, h.timer ht] at hk
      exact (Option.some.inj hk).symm

theorem cancel_timers {k' : String} :
    (s.cancel k).typingExpireTimers.get k' = if k = k' then none else s.typingExpireTimers.get k' := by
  unfold cancel
  cases hk : s.typingExpireTimers.get k with
  | none =>
    split_ifs with heq
    · rw [← heq]
      exact hk
    · rfl
  | some existing => exact InsertionMap.get_delete

@[simp] theorem cancel_typingUsers : (s.cancel k).typingUsers = s.typingUsers := by
  unfold cancel
  cases s.typingExpireTimers.get k <;> rfl

@[simp] theorem cancel_nextTimer : (s.cancel k).nextTimer = s.nextTimer := by
  unfold cancel
  cases s.typingExpireTimers.get k <;> rfl

/-! `setTyping` -/

theorem setTyping_typingUsers : (s.setTyping p isTyping).typingUsers = mark s.typingUsers p isTyping := by
  cases isTyping <;> exact congrArg (mark · p _) cancel_typingUsers

theorem setTyping_nextTimer : (s.setTyping p isTyping).nextTimer = s.nextTimer + isTyping.toNat := by
  cases isTyping with
  | false => exact cancel_nextTimer
  | true => exact congrArg (· + 1) cancel_nextTimer

theorem shows_setTyping : (s.setTyping p isTyping).Shows q ↔ if q = p then isTyping = true else s.Shows q := by
  unfold Shows
  rw [setTyping_typingUsers, mem_mark]

/-- Afterwards the new timeout is pending, and those that had other keys. -/
theorem Inv.setTyping_timeouts (h : s.Inv) : (s.setTyping p isTyping).timeouts.get t = some q ↔
    isTyping = true ∧ t = s.nextTimer ∧ q = p ∨ s.timeouts.get t = some q ∧ q.timerKey ≠ p.timerKey := by
  unfold setTyping
  cases isTyping with
  | false =>
    simp only [Bool.false_eq_true, if_false, false_and, false_or]
    exact h.cancel_timeouts
  | true =>
    simp only [if_true, schedule, true_and, cancel_nextTimer, InsertionMap.get_set]
    by_cases ht : s.nextTimer = t
    · rw [if_pos ht]
      have hnone : ¬ s.timeouts.get t = some q := fun hq => absurd (h.fresh t q hq) (by omega)
      simp [hnone, ht, eq_comm]
    · rw [if_neg ht, h.cancel_timeouts]
      simp [Ne.symm ht]

theorem setTyping_timers : (s.setTyping p isTyping).typingExpireTimers.get k = some t ↔
    isTyping = true ∧ t = s.nextTimer ∧ k = p.timerKey ∨
      s.typingExpireTimers.get k = some t ∧ k ≠ p.timerKey := by
  unfold setTyping
  cases isTyping with
  | false =>
    simp only [Bool.false_eq_true, if_false, false_and, false_or, cancel_timers]
    by_cases hk : p.timerKey = k
    · simp [hk]
    · simp [hk, Ne.symm hk]
  | true =>
    simp only [if_true, schedule, true_and, cancel_nextTimer, InsertionMap.get_set, cancel_timers]
    by_cases hk : p.timerKey = k
    · simp [hk, eq_comm]
    · simp [hk, Ne.symm hk]

/-- A pair whose timeout another took keeps its indicator. -/
theorem Inv.careful_of_expiring (h : s.Inv) (he : (s.setTyping p isTyping).Expiring) :
    s.Careful (.setTyping p isTyping) := by
  intro e hmem hkey
  by_contra hne
  have hshows : (s.setTyping p isTyping).Shows e.2 := by
    rw [shows_setTyping, if_neg hne]
    exact (h.shown _).2 ⟨e.1, InsertionMap.get_eq_some_iff.2 hmem⟩
  obtain ⟨t, ht⟩ := (he.shown _).1 hshows
  rcases h.setTyping_timeouts.1 ht with ⟨-, -, heq⟩ | ⟨-, hkey'⟩
  · exact hne heq
  · exact hkey' hkey

theorem Inv.setTyping (h : s.Inv) (hc : s.Careful (.setTyping p isTyping)) : (s.setTyping p isTyping).Inv where
  shown q := by
    rw [shows_setTyping]
    by_cases hq : q = p
    · rw [if_pos hq]
      constructor
      · intro hi
        exact ⟨s.nextTimer, h.setTyping_timeouts.2 (Or.inl ⟨hi, rfl, hq⟩)⟩
      · rintro ⟨t, ht⟩
        rcases h.setTyping_timeouts.1 ht with ⟨hi, -⟩ | ⟨-, hkey⟩
        · exact hi
        · exact (hkey (by rw [hq])).elim
    · rw [if_neg hq, h.shown q]
      constructor
      · rintro ⟨t, ht⟩
        have hkey : q.timerKey ≠ p.timerKey := fun hkey => hq (hc ⟨t, q⟩ (InsertionMap.get_eq_some_iff.1 ht) hkey)
        exact ⟨t, h.setTyping_timeouts.2 (Or.inr ⟨ht, hkey⟩)⟩
      · rintro ⟨t, ht⟩
        rcases h.setTyping_timeouts.1 ht with ⟨-, -, heq⟩ | ⟨ht', -⟩
        · exact (hq heq).elim
        · exact ⟨t, ht'⟩
  keyed k t := by
    rw [setTyping_timers]
    constructor
    · rintro (⟨hi, ht, hk⟩ | ⟨ht, hk⟩)
      · exact ⟨p, h.setTyping_timeouts.2 (Or.inl ⟨hi, ht, rfl⟩), hk.symm⟩
      · obtain ⟨q, hq, rfl⟩ := (h.keyed k t).1 ht
        exact ⟨q, h.setTyping_timeouts.2 (Or.inr ⟨hq, hk⟩), rfl⟩
    · rintro ⟨q, hq, rfl⟩
      rcases h.setTyping_timeouts.1 hq with ⟨hi, ht, heq⟩ | ⟨ht, hk⟩
      · exact Or.inl ⟨hi, ht, by rw [heq]⟩
      · exact Or.inr ⟨h.timer ht, hk⟩
  fresh t q hq := by
    rw [setTyping_nextTimer]
    rcases h.setTyping_timeouts.1 hq with ⟨hi, ht, -⟩ | ⟨ht, -⟩
    · rw [ht, hi]
      exact Nat.lt_succ_self _
    · have := h.fresh t q ht
      omega

/-! `setActiveConversation` -/

theorem hasPrefix_timerKey : Text.HasPrefix (p.recipient ++ "::") p.timerKey := Text.hasPrefix_append _ _

theorem shows_setActiveConversation : (s.setActiveConversation c).Shows p ↔
    s.Shows p ∧ ∀ old ∈ s.activeConversation, p.recipient ≠ old.key := by
  unfold Shows setActiveConversation
  cases s.activeConversation with
  | none => simp
  | some old =>
    dsimp only
    rw [InsertionMap.get_delete]
    by_cases hr : old.key = p.recipient
    · simp [hr]
    · simp [hr, Ne.symm hr]

theorem Inv.setActiveConversation_timeouts (h : s.Inv) : (s.setActiveConversation c).timeouts.get t = some p ↔
    s.timeouts.get t = some p ∧ ∀ old ∈ s.activeConversation, ¬ Text.HasPrefix (old.key ++ "::") p.timerKey := by
  unfold setActiveConversation
  cases s.activeConversation with
  | none => simp
  | some old =>
    simp only [clearPrefixed_timeouts, Option.mem_some_iff, forall_eq']
    refine and_congr_right fun ht => ?_
    constructor
    · intro hall hp
      exact hall (p.timerKey, t) (InsertionMap.get_eq_some_iff.1 (h.timer ht)) hp rfl
    · intro hp e he hpre heq
      obtain ⟨q, hq, hkey⟩ := (h.keyed e.1 e.2).1 (InsertionMap.get_eq_some_iff.2 he)
      rw [heq, ht] at hq
      cases hq
      exact hp (hkey ▸ hpre)

theorem setActiveConversation_timers : (s.setActiveConversation c).typingExpireTimers.get k = some t ↔
    s.typingExpireTimers.get k = some t ∧ ∀ old ∈ s.activeConversation, ¬ Text.HasPrefix (old.key ++ "::") k := by
  unfold setActiveConversation
  cases s.activeConversation with
  | none => simp
  | some old =>
    simp only [clearPrefixed_timers, Option.mem_some_iff, forall_eq']
    refine and_congr_right fun ht => ?_
    constructor
    · intro hall hp
      exact hall (k, t) (InsertionMap.get_eq_some_iff.1 ht) hp rfl
    · intro hp e _ hpre heq
      exact hp (heq ▸ hpre)

@[simp] theorem setActiveConversation_nextTimer : (s.setActiveConversation c).nextTimer = s.nextTimer := by
  unfold setActiveConversation
  cases s.activeConversation with
  | none => rfl
  | some old => exact clearPrefixed_nextTimer

/-- Where no other conversation's key begins so, the prefix tells the conversation. -/
theorem Careful.left_iff (hc : s.Careful (.setActiveConversation c)) (ht : s.timeouts.get t = some p) :
    (∀ old ∈ s.activeConversation, ¬ Text.HasPrefix (old.key ++ "::") p.timerKey) ↔
      ∀ old ∈ s.activeConversation, p.recipient ≠ old.key := by
  refine forall₂_congr fun old hold => not_congr ⟨?_, ?_⟩
  · exact hc old hold (t, p) (InsertionMap.get_eq_some_iff.1 ht)
  · intro hr
    rw [← hr]
    exact hasPrefix_timerKey

theorem Inv.setActiveConversation (h : s.Inv) (hc : s.Careful (.setActiveConversation c)) :
    (s.setActiveConversation c).Inv where
  shown p := by
    rw [shows_setActiveConversation, h.shown p]
    constructor
    · rintro ⟨⟨t, ht⟩, hne⟩
      exact ⟨t, h.setActiveConversation_timeouts.2 ⟨ht, (hc.left_iff ht).2 hne⟩⟩
    · rintro ⟨t, ht⟩
      obtain ⟨ht', hp⟩ := h.setActiveConversation_timeouts.1 ht
      exact ⟨⟨t, ht'⟩, (hc.left_iff ht').1 hp⟩
  keyed k t := by
    rw [setActiveConversation_timers, h.keyed]
    constructor
    · rintro ⟨⟨p, ht, rfl⟩, hp⟩
      exact ⟨p, h.setActiveConversation_timeouts.2 ⟨ht, hp⟩, rfl⟩
    · rintro ⟨p, ht, rfl⟩
      obtain ⟨ht', hp⟩ := h.setActiveConversation_timeouts.1 ht
      exact ⟨⟨p, ht', rfl⟩, hp⟩
  fresh t p ht := by
    rw [setActiveConversation_nextTimer]
    exact h.fresh t p (h.setActiveConversation_timeouts.1 ht).1

theorem Inv.left_iff (h : s.Inv) : s.Unstuck (.setActiveConversation c) ↔ s.Careful (.setActiveConversation c) := by
  constructor
  · intro hu old hold e hmem hp
    by_contra hne
    have ht := InsertionMap.get_eq_some_iff.2 hmem
    -- the conversation that is left is the only one there is
    have hstays : ∀ old' ∈ s.activeConversation, e.2.recipient ≠ old'.key := by
      intro old' hold'
      rw [Option.mem_unique hold' hold]
      exact hne
    have htaken := ((hu.leaves c rfl e.2).2 e.1).2 ⟨ht, hstays⟩
    exact (h.setActiveConversation_timeouts.1 htaken).2 old hold hp
  · intro hc
    refine ⟨(h.setActiveConversation hc).expiring, ?_⟩
    rintro c' ⟨⟩ p
    refine ⟨shows_setActiveConversation, fun t => h.setActiveConversation_timeouts.trans ?_⟩
    exact and_congr_right fun ht => hc.left_iff ht

/-! A timeout -/

theorem expire_of_none (ht : s.timeouts.get t = none) : s.expire t = s := by
  unfold expire
  rw [ht]

theorem expire_of_some (ht : s.timeouts.get t = some p) : s.expire t = { s with
    timeouts := s.timeouts.delete t, typingExpireTimers := s.typingExpireTimers.delete p.timerKey
    typingUsers := mark s.typingUsers p false } := by
  unfold expire
  rw [ht]

theorem Inv.expire (h : s.Inv) : (s.expire t).Inv := by
  cases ht : s.timeouts.get t with
  | none =>
    rw [expire_of_none ht]
    exact h
  | some p =>
    rw [expire_of_some ht]
    -- the timeout is the only one with its pair, and with its key
    have honly : ∀ {t' q}, s.timeouts.get t' = some q → q.timerKey = p.timerKey → t = t' := by
      intro t' q ht' hkey
      have htimer := h.timer ht'
      rw [hkey, h.timer ht] at htimer
      exact Option.some.inj htimer
    have hleft : ∀ {t' q}, (s.timeouts.delete t).get t' = some q ↔ s.timeouts.get t' = some q ∧ t ≠ t' := by
      intro t' q
      rw [InsertionMap.get_delete]
      by_cases heq : t = t'
      · simp [heq]
      · simp [heq]
    refine ⟨fun q => ?_, fun k t' => ?_, fun t' q hq => h.fresh t' q (hleft.1 hq).1⟩
    · unfold Shows
      rw [mem_mark]
      by_cases hq : q = p
      · rw [if_pos hq]
        subst hq
        constructor
        · intro hf
          cases hf
        · rintro ⟨t', ht'⟩
          exact ((hleft.1 ht').2 (honly (hleft.1 ht').1 rfl)).elim
      · rw [if_neg hq]
        refine (h.shown q).trans ?_
        constructor
        · rintro ⟨t', ht'⟩
          refine ⟨t', hleft.2 ⟨ht', ?_⟩⟩
          rintro rfl
          rw [ht] at ht'
          exact hq (Option.some.inj ht').symm
        · rintro ⟨t', ht'⟩
          exact ⟨t', (hleft.1 ht').1⟩
    · dsimp only
      rw [InsertionMap.get_delete]
      by_cases hk : p.timerKey = k
      · rw [if_pos hk]
        constructor
        · intro hn
          cases hn
        · rintro ⟨q, hq, hkey⟩
          exact ((hleft.1 hq).2 (honly (hleft.1 hq).1 (hkey.trans hk.symm))).elim
      · rw [if_neg hk, h.keyed]
        constructor
        · rintro ⟨q, hq, hkey⟩
          refine ⟨q, hleft.2 ⟨hq, ?_⟩, hkey⟩
          rintro rfl
          rw [ht] at hq
          cases hq
          exact hk hkey
        · rintro ⟨q, hq, hkey⟩
          exact ⟨q, (hleft.1 hq).1, hkey⟩

/-! A run -/

theorem Inv.unstuck_iff (h : s.Inv) (e : TypingStoreEvent) : s.Unstuck e ↔ s.Careful e := by
  cases e with
  | setTyping p isTyping =>
    refine ⟨fun hu => h.careful_of_expiring hu.expiring, fun hc => ⟨(h.setTyping hc).expiring, ?_⟩⟩
    intro c hc'
    cases hc'
  | setActiveConversation c => exact h.left_iff
  | expire t =>
    refine iff_of_true ⟨h.expire.expiring, ?_⟩ trivial
    intro c hc
    cases hc

theorem Inv.step (h : s.Inv) (e : TypingStoreEvent) (hc : s.Careful e) : (s.step e).Inv := by
  cases e with
  | setTyping p isTyping => exact h.setTyping hc
  | setActiveConversation c => exact h.setActiveConversation hc
  | expire t => exact h.expire

theorem run_unstuck_iff (es : List TypingStoreEvent) :
    StepSystem.Guarded typingStoreSys Unstuck .new es ↔ StepSystem.Guarded typingStoreSys Careful .new es :=
  StepSystem.guarded_iff (fun _ e h => h.unstuck_iff e) (fun _ e h => h.step e) inv_new es

/-- "c" types in the conversation "a::b"; another pair has the same key and takes its timeout. -/
def typed : List TypingStoreEvent := [.setTyping ⟨"a::b", "c"⟩ true, .setTyping ⟨"a", "b::c"⟩ true]

/-- "c" types in "a::b"; the conversation "a" is left and takes its timeout along. -/
def left : List TypingStoreEvent :=
  [.setActiveConversation (some (.dm "a")), .setTyping ⟨"a::b", "c"⟩ true, .setActiveConversation none]

theorem stuck : ¬ StepSystem.Guarded typingStoreSys Unstuck .new typed ∧
    ¬ StepSystem.Guarded typingStoreSys Unstuck .new left := by
  constructor
  · intro h
    have hinv := inv_new.step (.setTyping ⟨"a::b", "c"⟩ true) (by decide +kernel)
    exact absurd ((hinv.unstuck_iff _).1 h.2.1) (by decide +kernel)
  · intro h
    have hinv := (inv_new.step (.setActiveConversation (some (.dm "a"))) (by decide +kernel)).step
      (.setTyping ⟨"a::b", "c"⟩ true) (by decide +kernel)
    exact absurd ((hinv.unstuck_iff _).1 h.2.2.1) (by decide +kernel)

end MessagingStore
end Variance
