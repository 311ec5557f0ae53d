import Variance.Lib.Alternation
import Variance.Spec.Notifications

/-! Bursts, banners and clicks in any order: what a conversation is told of last is what is shown, and where it leads. -/

namespace Variance
namespace NotifyPage
open Arrivals NotifyEntry InsertionMap

variable {p : NotifyPage} {n : Notice} {key : String} {timer : ℕ}

/-! What each operation does to the maps -/

theorem notify_eq (p : NotifyPage) (n : Notice) : ∃ timeouts, p.notify n = { p with
      notifyBodies := p.notifyBodies.set n.conversationKey n.body
      timeouts
      notifyTimers := p.notifyTimers.set n.conversationKey p.nextTimer
      nextTimer := p.nextTimer + 1
      log := p.log ++ [.called p.now n] } ∧
    ∀ t, timeouts.get t = if p.nextTimer = t then some (p.now + 500, n)
      else if p.notifyTimers.get n.conversationKey = some t then none else p.timeouts.get t := by
  unfold notify tell
  dsimp only
  cases h : p.notifyTimers.get n.conversationKey with
  | none =>
    refine ⟨_, rfl, fun t => ?_⟩
    rw [InsertionMap.get_set]
    simp
  | some existing =>
    refine ⟨_, rfl, fun t => ?_⟩
    rw [InsertionMap.get_set, InsertionMap.get_delete]
    simp

theorem clear_eq (p : NotifyPage) (key : String) : ∃ ids targets center timeouts timers,
    p.clearConversationNotification key = { p with
      notifyIds := ids
      notifyActionTargets := targets
      center
      clearTimeouts := timeouts
      notifyClearTimers := timers
      pendingNavTarget := if p.pendingNavKey = some key then none else p.pendingNavTarget
      pendingNavKey := if p.pendingNavKey = some key then none else p.pendingNavKey
      pendingNavAt := if p.pendingNavKey = some key then 0 else p.pendingNavAt
      log := p.log ++ [.cleared key] } ∧
    (∀ k, ids.get k = if key = k then none else p.notifyIds.get k) ∧
    (∀ i, targets.get i = if p.notifyIds.get key = some i then none else p.notifyActionTargets.get i) ∧
    (∀ i, center.get i = if p.notifyIds.get key = some i then none else p.center.get i) ∧
    (∀ t, timeouts.get t = if p.notifyClearTimers.get key = some t then none else p.clearTimeouts.get t) ∧
    ∀ k, timers.get k = if key = k then none else p.notifyClearTimers.get k := by
  obtain ⟨ids, targets, center, hid, hids, htargets, hcenter⟩ : ∃ ids targets center,
      p.dropId key = { p with notifyIds := ids, notifyActionTargets := targets, center } ∧
      (∀ k, ids.get k = if key = k then none else p.notifyIds.get k) ∧
      (∀ i, targets.get i = if p.notifyIds.get key = some i then none else p.notifyActionTargets.get i) ∧
      ∀ i, center.get i = if p.notifyIds.get key = some i then none else p.center.get i := by
    unfold dropId
    cases h : p.notifyIds.get key with
    | none =>
      refine ⟨_, _, _, rfl, fun k => ?_, fun i => by simp, fun i => by simp⟩
      split_ifs with hk
      · rw [← hk, h]
      · rfl
    | some id =>
      refine ⟨_, _, _, rfl, fun k => InsertionMap.get_delete, fun i => ?_, fun i => ?_⟩
      · rw [InsertionMap.get_delete]
        simp
      · rw [InsertionMap.get_delete]
        simp
  obtain ⟨timeouts, timers, htimer, htimeouts, htimers⟩ : ∃ timeouts timers,
      (p.dropId key).dropClearTimer key =
        { p.dropId key with clearTimeouts := timeouts, notifyClearTimers := timers } ∧
      (∀ t, timeouts.get t = if p.notifyClearTimers.get key = some t then none else p.clearTimeouts.get t) ∧
      ∀ k, timers.get k = if key = k then none else p.notifyClearTimers.get k := by
    rw [hid]
    unfold dropClearTimer
    dsimp only
    cases h : p.notifyClearTimers.get key with
    | none =>
      refine ⟨_, _, rfl, fun t => by simp, fun k => ?_⟩
      split_ifs with hk
      · rw [← hk, h]
      · rfl
    | some timer =>
      refine ⟨_, _, rfl, fun t => ?_, fun k => InsertionMap.get_delete⟩
      rw [InsertionMap.get_delete]
      simp
  refine ⟨ids, targets, center, timeouts, timers, ?_, hids, htargets, hcenter, htimeouts, htimers⟩
  unfold clearConversationNotification tell
  rw [htimer, hid]
  dsimp only
  split_ifs <;> rfl

theorem send_eq (p : NotifyPage) (n : Notice) : ∃ id ids counter timeouts,
    p.send n = { p with
      notifyIds := ids
      notifyIdCounter := counter
      notifyActionTargets := p.notifyActionTargets.set id (n.target, n.conversationKey)
      center := p.center.set id n.body
      pendingNavTarget := if n.target = none then p.pendingNavTarget else n.target
      pendingNavKey := if n.target = none then p.pendingNavKey else some n.conversationKey
      pendingNavAt := if n.target = none then p.pendingNavAt else p.now
      clearTimeouts := timeouts
      notifyClearTimers := p.notifyClearTimers.set n.conversationKey p.nextTimer
      nextTimer := p.nextTimer + 1
      log := p.log ++ [.sent p.now id n] } ∧
    (∀ k, ids.get k = if n.conversationKey = k then some id else p.notifyIds.get k) ∧
    (p.notifyIds.get n.conversationKey = some id ∧ counter = p.notifyIdCounter ∨
      p.notifyIds.get n.conversationKey = none ∧ id = p.notifyIdCounter ∧ counter = p.notifyIdCounter + 1) ∧
    ∀ t, timeouts.get t = if p.nextTimer = t then some (p.now + 60000, id, n.conversationKey)
      else if p.notifyClearTimers.get n.conversationKey = some t then none else p.clearTimeouts.get t := by
  obtain ⟨id, ids, counter, hid, hids, hcounter⟩ : ∃ id ids counter,
      p.getNotifyId n.conversationKey = (id, { p with notifyIds := ids, notifyIdCounter := counter }) ∧
      (∀ k, ids.get k = if n.conversationKey = k then some id else p.notifyIds.get k) ∧
      (p.notifyIds.get n.conversationKey = some id ∧ counter = p.notifyIdCounter ∨
        p.notifyIds.get n.conversationKey = none ∧ id = p.notifyIdCounter ∧ counter = p.notifyIdCounter + 1) := by
    unfold getNotifyId
    cases h : p.notifyIds.get n.conversationKey with
    | none => exact ⟨_, _, _, rfl, fun k => InsertionMap.get_set, Or.inr ⟨rfl, rfl, rfl⟩⟩
    | some id =>
      refine ⟨id, _, _, rfl, fun k => ?_, Or.inl ⟨rfl, rfl⟩⟩
      split_ifs with hk
      · rw [← hk, h]
      · rfl
  unfold send tell
  rw [hid]
  dsimp only
  cases ht : n.target <;> cases hc : p.notifyClearTimers.get n.conversationKey <;>
    refine ⟨id, ids, counter, _, by simp; rfl, hids, hcounter, fun t => ?_⟩ <;>
      simp [InsertionMap.get_set, InsertionMap.get_delete]

/-! Calls and their timeouts -/

theorem count_concat {α : Type} {f : NotifyEntry → Option α} [DecidableEq α] {log : List NotifyEntry} {e : NotifyEntry}
    {a : α} : ((log ++ [e]).filterMap f).count a = (log.filterMap f).count a + (f e).toList.count a := by
  rw [List.filterMap_append, List.count_append]
  cases h : f e <;> simp [h]

structure Waits (p : NotifyPage) : Prop where
  armed : Armed (·.2.conversationKey) p.notifyTimers p.timeouts p.nextTimer
  waiting : ∀ time n, InEffect Rearms p.log (.called time n) ↔ ∃ t, p.timeouts.get t = some (time + 500, n)
  due : ∀ t x, p.timeouts.get t = some x → ∃ time, x.1 = time + 500
  body : ∀ t x, p.timeouts.get t = some x → p.notifyBodies.get x.2.conversationKey = some x.2.body
  asked : ∀ early time n late, p.log = early ++ .asked time n :: late →
    ∃ called, InEffect Rearms early (.called called n) ∧ called + 500 ≤ time
  sent : ∀ n, (p.log.filterMap sentNotice).count n + p.asking.count n ≤ (p.log.filterMap askedNotice).count n

/-- Neither a call nor the end of one. -/
def Apart : NotifyEntry → Prop
  | .called _ _ | .asked _ _ => False
  | _ => True

theorem Waits.notify (h : p.Waits) : (p.notify n).Waits := by
  obtain ⟨timeouts, heq, hget⟩ := notify_eq p n
  rw [heq]
  have hsome : ∀ t x, timeouts.get t = some x ↔
      p.nextTimer = t ∧ (p.now + 500, n) = x ∨
        p.timeouts.get t = some x ∧ n.conversationKey ≠ x.2.conversationKey :=
    fun t x => h.armed.get_arm hget
  refine ⟨h.armed.arm hget, fun time m => ?_, fun t x hx => ?_, fun t x hx => ?_,
    fun early time m late hlog => ?_, fun m => ?_⟩
  · show InEffect Rearms (p.log ++ [_]) _ ↔ ∃ t, timeouts.get t = _
    rw [inEffect_concat, h.waiting]
    simp only [hsome]
    constructor
    · rintro (heq | ⟨⟨t, ht⟩, hne⟩)
      · obtain ⟨rfl, rfl⟩ := NotifyEntry.called.inj heq
        exact ⟨_, Or.inl ⟨rfl, rfl⟩⟩
      · exact ⟨t, Or.inr ⟨ht, hne⟩⟩
    · rintro ⟨t, ⟨-, heq⟩ | ⟨ht, hne⟩⟩
      · obtain ⟨htime, rfl⟩ := Prod.mk.inj heq
        rw [Nat.add_right_cancel htime]
        exact Or.inl rfl
      · exact Or.inr ⟨⟨t, ht⟩, hne⟩
  · rcases (hsome t x).1 hx with ⟨-, rfl⟩ | ⟨hx, -⟩
    · exact ⟨p.now, rfl⟩
    · exact h.due t x hx
  · show (p.notifyBodies.set _ _).get _ = _
    rw [InsertionMap.get_set]
    rcases (hsome t x).1 hx with ⟨-, rfl⟩ | ⟨hx, hne⟩
    · exact if_pos rfl
    · rw [if_neg hne]
      exact h.body t x hx
  · rcases Alternation.snoc_eq_append_cons hlog with ⟨-, -, he⟩ | ⟨before, rfl, hold⟩
    · cases he
    · exact h.asked early time m before hold
  · show ((p.log ++ [_]).filterMap _).count m + _ ≤ ((p.log ++ [_]).filterMap _).count m
    rw [count_concat, count_concat]
    exact h.sent m

theorem Waits.debounced (h : p.Waits) (t₀ : ℕ) : (p.debounced t₀).Waits := by
  unfold NotifyPage.debounced
  cases hx₀ : p.timeouts.get t₀ with
  | none => exact h
  | some x₀ =>
    obtain ⟨due, n⟩ := x₀
    dsimp only
    split_ifs with hnow
    · exact h
    · obtain ⟨called, rfl⟩ : ∃ called, due = called + 500 := h.due t₀ _ hx₀
      have hbody : p.notifyBodies.get n.conversationKey = some n.body := h.body t₀ _ hx₀
      rw [hbody, Option.getD_some]
      have hget : ∀ t, (p.timeouts.delete t₀).get t =
          if p.notifyTimers.get n.conversationKey = some t then none else p.timeouts.get t := fun t => by
        rw [InsertionMap.get_delete, (h.armed.timer n.conversationKey t₀).2 ⟨_, hx₀, rfl⟩]
        simp
      have hsome : ∀ t x, (p.timeouts.delete t₀).get t = some x ↔
          p.timeouts.get t = some x ∧ n.conversationKey ≠ x.2.conversationKey :=
        fun t x => h.armed.get_disarm hget
      refine ⟨h.armed.disarm hget fun k => InsertionMap.get_delete, fun time m => ?_,
        fun t x hx => h.due t x ((hsome t x).1 hx).1, fun t x hx => ?_, fun early time m late hlog => ?_, fun m => ?_⟩
      · show InEffect Rearms (p.log ++ [_]) _ ↔ ∃ t, (p.timeouts.delete t₀).get t = _
        rw [inEffect_concat, h.waiting]
        simp only [hsome]
        constructor
        · rintro (heq | ⟨⟨t, ht⟩, hne⟩)
          · cases heq
          · exact ⟨t, ht, hne⟩
        · rintro ⟨t, ht, hne⟩
          exact Or.inr ⟨⟨t, ht⟩, hne⟩
      · show (p.notifyBodies.delete _).get _ = _
        obtain ⟨hx, hne⟩ := (hsome t x).1 hx
        rw [InsertionMap.get_delete, if_neg hne]
        exact h.body t x hx
      · rcases Alternation.snoc_eq_append_cons hlog with ⟨-, rfl, he⟩ | ⟨before, rfl, hold⟩
        · obtain ⟨rfl, rfl⟩ := NotifyEntry.asked.inj he
          exact ⟨called, (h.waiting called n).2 ⟨t₀, hx₀⟩, not_lt.1 hnow⟩
        · exact h.asked early time m before hold
      · show ((p.log ++ [_]).filterMap _).count m + (p.asking ++ [_]).count m ≤ ((p.log ++ [_]).filterMap _).count m
        rw [count_concat, count_concat, List.count_append, ← Nat.add_assoc]
        exact Nat.add_le_add_right (h.sent m) _

/-- What leaves the calls and their timeouts alone. -/
theorem Waits.other {p' : NotifyPage} {e : NotifyEntry} (h : p.Waits) (he : Apart e)
    (htimers : p'.notifyTimers = p.notifyTimers) (htimeouts : p'.timeouts = p.timeouts)
    (hbodies : p'.notifyBodies = p.notifyBodies) (hnext : p.nextTimer ≤ p'.nextTimer) (hlog : p'.log = p.log ++ [e])
    (hasking : ∀ m, (sentNotice e).toList.count m + p'.asking.count m ≤ p.asking.count m) : p'.Waits := by
  refine ⟨?_, fun time m => ?_, fun t x hx => ?_, fun t x hx => ?_, fun early time m late heq => ?_, fun m => ?_⟩
  · rw [htimers, htimeouts]
    exact h.armed.later hnext
  · rw [hlog, htimeouts, inEffect_concat, ← h.waiting]
    cases e <;> simp [Apart, Rearms] at he ⊢
  · rw [htimeouts] at hx
    exact h.due t x hx
  · rw [htimeouts] at hx
    rw [hbodies]
    exact h.body t x hx
  · rw [hlog] at heq
    rcases Alternation.snoc_eq_append_cons heq with ⟨-, -, rfl⟩ | ⟨before, rfl, hold⟩
    · cases he
    · exact h.asked early time m before hold
  · rw [hlog, count_concat, count_concat, add_assoc]
    refine (Nat.add_le_add_left (hasking m) _).trans ((h.sent m).trans (Nat.le_add_right _ _))

theorem Waits.clear (h : p.Waits) : (p.clearConversationNotification key).Waits := by
  obtain ⟨ids, targets, center, timeouts, timers, heq, -⟩ := clear_eq p key
  rw [heq]
  exact h.other (e := .cleared key) trivial rfl rfl rfl le_rfl rfl fun m => (Nat.zero_add _).le

theorem Waits.permission (h : p.Waits) (i : ℕ) (granted : Bool) : (p.permission i granted).Waits := by
  unfold NotifyPage.permission
  cases hi : p.asking[i]? with
  | none => exact h
  | some n =>
    obtain ⟨hlt, hn⟩ := List.getElem?_eq_some_iff.1 hi
    have hcount : ∀ m, p.asking.count m = (n :: p.asking.eraseIdx i).count m := fun m => by
      rw [← hn]
      exact (List.getElem_cons_eraseIdx_perm hlt).symm.count_eq m
    dsimp only
    cases granted with
    | false =>
      refine ⟨h.armed, h.waiting, h.due, h.body, h.asked, fun m => (Nat.add_le_add_left ?_ _).trans (h.sent m)⟩
      rw [hcount, List.count_cons]
      exact Nat.le_add_right _ _
    | true =>
      rw [if_pos rfl]
      obtain ⟨id, ids, counter, timeouts, heq, -⟩ := send_eq { p with asking := p.asking.eraseIdx i } n
      rw [heq]
      refine h.other (e := .sent p.now id n) trivial rfl rfl rfl (Nat.le_succ _) rfl fun m => ?_
      rw [hcount, List.count_cons, Nat.add_comm]
      exact Nat.add_le_add_left (by simp [sentNotice, List.count_cons]) _

/-! The notification center -/

structure Rings (p : NotifyPage) : Prop where
  target : ∀ i target key, p.notifyActionTargets.get i = some (target, key) → p.notifyIds.get key = some i
  named : ∀ key i, p.notifyIds.get key = some i → ∃ target, p.notifyActionTargets.get i = some (target, key)
  shown : ∀ i body, p.center.get i = some body ↔ ∃ time n, n.body = body ∧ InEffect Hides p.log (.sent time i n)
  leads : ∀ i target key, p.notifyActionTargets.get i = some (target, key) ↔
    ∃ time n, n.target = target ∧ n.conversationKey = key ∧ InEffect Releases p.log (.sent time i n)
  timed : ∀ time i n, InEffect Hides p.log (.sent time i n) →
    ∃ t, p.clearTimeouts.get t = some (time + 60000, i, n.conversationKey)
  armed : Armed (·.2.2) p.notifyClearTimers p.clearTimeouts p.nextTimer
  timerId : ∀ t x, p.clearTimeouts.get t = some x → p.notifyIds.get x.2.2 = some x.2.1
  counter : ∀ key i, p.notifyIds.get key = some i → i < p.notifyIdCounter
  used : ∀ time i n, .sent time i n ∈ p.log → i < p.notifyIdCounter
  mine : ∀ time i n key, .sent time i n ∈ p.log → p.notifyIds.get key = some i → n.conversationKey = key
  own : ∀ time time' i n n', .sent time i n ∈ p.log → .sent time' i n' ∈ p.log →
    n.conversationKey = n'.conversationKey

theorem Rings.named_of_hides (h : p.Rings) {time i : ℕ} (he : InEffect Hides p.log (.sent time i n)) :
    p.notifyIds.get n.conversationKey = some i := by
  have hrel : InEffect Releases p.log (.sent time i n) :=
    he.mono fun b a hb => by cases b <;> first | exact hb | cases hb
  exact h.target _ _ _ ((h.leads i _ _).2 ⟨time, n, rfl, rfl, hrel⟩)

theorem Rings.inj (h : p.Rings) {key key' : String} {i : ℕ} (hi : p.notifyIds.get key = some i)
    (hi' : p.notifyIds.get key' = some i) : key = key' := by
  obtain ⟨target, ht⟩ := h.named key i hi
  obtain ⟨target', ht'⟩ := h.named key' i hi'
  exact (Prod.mk.inj (Option.some_injective _ (ht.symm.trans ht'))).2

theorem Rings.clear (h : p.Rings) : (p.clearConversationNotification key).Rings := by
  obtain ⟨ids, targets, center, timeouts, timers, heq, hids, htargets, hcenter, htimeouts, htimers⟩ := clear_eq p key
  rw [heq]
  have hid : ∀ k i, ids.get k = some i ↔ p.notifyIds.get k = some i ∧ key ≠ k := fun k i => by
    rw [hids]
    split_ifs with hk <;> simp [hk]
  have htarget : ∀ i target k, targets.get i = some (target, k) ↔
      p.notifyActionTargets.get i = some (target, k) ∧ key ≠ k := by
    intro i target k
    rw [htargets]
    split_ifs with hi
    · refine iff_of_false id fun ht => ht.2 ?_
      exact h.inj hi (h.target _ _ _ ht.1)
    · refine (and_iff_left_of_imp fun ht hk => hi ?_).symm
      rw [hk]
      exact h.target _ _ _ ht
  have htimeout : ∀ t x, timeouts.get t = some x ↔ p.clearTimeouts.get t = some x ∧ key ≠ x.2.2 :=
    fun t x => h.armed.get_disarm htimeouts
  have hsent : ∀ time i n, .sent time i n ∈ p.log ++ [.cleared key] → .sent time i n ∈ p.log := fun time i n hm => by
    simpa using hm
  refine ⟨fun i target k ht => ?_, fun k i hi => ?_, fun i body => ?_, fun i target k => ?_, fun time i n he => ?_,
    h.armed.disarm htimeouts htimers, fun t x hx => ?_, fun k i hi => h.counter k i ((hid k i).1 hi).1,
    fun time i n hm => h.used time i n (hsent _ _ _ hm),
    fun time i n k hm hi => h.mine time i n k (hsent _ _ _ hm) ((hid k i).1 hi).1,
    fun time time' i n n' hm hm' => h.own time time' i n n' (hsent _ _ _ hm) (hsent _ _ _ hm')⟩
  · obtain ⟨ht, hk⟩ := (htarget i target k).1 ht
    exact (hid k i).2 ⟨h.target i target k ht, hk⟩
  · obtain ⟨hi, hk⟩ := (hid k i).1 hi
    obtain ⟨target, ht⟩ := h.named k i hi
    exact ⟨target, (htarget i target k).2 ⟨ht, hk⟩⟩
  · show center.get i = some body ↔ ∃ time n, _ ∧ InEffect Hides (p.log ++ [_]) _
    simp only [inEffect_concat, reduceCtorEq, false_or]
    rw [hcenter]
    split_ifs with hi
    · refine iff_of_false id ?_
      rintro ⟨time, n, -, he, hne⟩
      exact hne (h.inj hi (h.named_of_hides he))
    · rw [h.shown]
      refine exists_congr fun time => exists_congr fun n => and_congr_right fun _ => ?_
      refine (and_iff_left_of_imp fun he hk => hi ?_).symm
      rw [show key = n.conversationKey from hk]
      exact h.named_of_hides he
  · show targets.get i = _ ↔ ∃ time n, _ ∧ _ ∧ InEffect Releases (p.log ++ [_]) _
    simp only [inEffect_concat, reduceCtorEq, false_or]
    rw [htarget, h.leads]
    constructor
    · rintro ⟨⟨time, n, rfl, rfl, he⟩, hk⟩
      exact ⟨time, n, rfl, rfl, he, hk⟩
    · rintro ⟨time, n, rfl, rfl, he, hk⟩
      exact ⟨⟨time, n, rfl, rfl, he⟩, hk⟩
  · rcases inEffect_concat.1 he with heq | ⟨he, hne⟩
    · cases heq
    · obtain ⟨t, ht⟩ := h.timed time i n he
      exact ⟨t, (htimeout t _).2 ⟨ht, hne⟩⟩
  · obtain ⟨hx, hk⟩ := (htimeout t x).1 hx
    exact (hid _ _).2 ⟨h.timerId t x hx, hk⟩

theorem Rings.send (h : p.Rings) : (p.send n).Rings := by
  obtain ⟨id, ids, counter, timeouts, heq, hids, hcounter, htimeouts⟩ := send_eq p n
  rw [heq]
  have hle : p.notifyIdCounter ≤ counter := by
    rcases hcounter with ⟨-, rfl⟩ | ⟨-, -, rfl⟩
    · exact le_rfl
    · exact Nat.le_succ _
  have hlt : id < counter := by
    rcases hcounter with ⟨hid, rfl⟩ | ⟨-, rfl, rfl⟩
    · exact h.counter _ _ hid
    · exact Nat.lt_succ_self _
  have hkey : ∀ k, p.notifyIds.get k = some id → k = n.conversationKey := by
    intro k hk
    rcases hcounter with ⟨hid, -⟩ | ⟨-, rfl, -⟩
    · exact h.inj hk hid
    · exact absurd (h.counter _ _ hk) (lt_irrefl _)
  have hold : ∀ time m, .sent time id m ∈ p.log → m.conversationKey = n.conversationKey := by
    intro time m hm
    rcases hcounter with ⟨hid, -⟩ | ⟨-, rfl, -⟩
    · exact h.mine _ _ _ _ hm hid
    · exact absurd (h.used _ _ _ hm) (lt_irrefl _)
  have hcurrent : ∀ i, p.notifyIds.get n.conversationKey = some i → id = i := by
    intro i hi
    rcases hcounter with ⟨hid, -⟩ | ⟨hid, -⟩
    · exact Option.some_injective _ (hid.symm.trans hi)
    · cases hid.symm.trans hi
  have hid : ∀ k i, ids.get k = some i ↔
      n.conversationKey = k ∧ id = i ∨ n.conversationKey ≠ k ∧ p.notifyIds.get k = some i := by
    intro k i
    rw [hids]
    split_ifs with hk <;> simp [hk]
  have htarget : ∀ i target k, (p.notifyActionTargets.set id (n.target, n.conversationKey)).get i = some (target, k) ↔
      id = i ∧ n.target = target ∧ n.conversationKey = k ∨
        n.conversationKey ≠ k ∧ p.notifyActionTargets.get i = some (target, k) := by
    intro i target k
    rw [InsertionMap.get_set]
    split_ifs with hi
    · subst hi
      rw [or_iff_left]
      · simp
      · rintro ⟨hne, ht⟩
        exact hne (hkey k (h.target _ _ _ ht)).symm
    · rw [or_iff_right fun ht => hi ht.1]
      refine (and_iff_right_of_imp fun ht hk => hi (hcurrent i ?_)).symm
      rw [hk]
      exact h.target _ _ _ ht
  have htimeout : ∀ t x, timeouts.get t = some x ↔
      p.nextTimer = t ∧ (p.now + 60000, id, n.conversationKey) = x ∨
        p.clearTimeouts.get t = some x ∧ n.conversationKey ≠ x.2.2 :=
    fun t x => h.armed.get_arm htimeouts
  have hsent : ∀ time i m, .sent time i m ∈ p.log ++ [.sent p.now id n] →
      .sent time i m ∈ p.log ∨ id = i ∧ n = m := by
    intro time i m hm
    rcases List.mem_append.1 hm with hm | hm
    · exact Or.inl hm
    · obtain ⟨-, rfl, rfl⟩ := NotifyEntry.sent.inj (List.mem_singleton.1 hm)
      exact Or.inr ⟨rfl, rfl⟩
  refine ⟨fun i target k ht => ?_, fun k i hi => ?_, fun i body => ?_, fun i target k => ?_, fun time i m he => ?_,
    h.armed.arm htimeouts, fun t x hx => ?_, fun k i hi => ?_, fun time i m hm => ?_, fun time i m k hm hi => ?_,
    fun time time' i m m' hm hm' => ?_⟩
  · rcases (htarget i target k).1 ht with ⟨hi, -, hk⟩ | ⟨hk, ht⟩
    · exact (hid k i).2 (Or.inl ⟨hk, hi⟩)
    · exact (hid k i).2 (Or.inr ⟨hk, h.target i target k ht⟩)
  · rcases (hid k i).1 hi with ⟨hk, hi⟩ | ⟨hk, hi⟩
    · exact ⟨_, (htarget i _ k).2 (Or.inl ⟨hi, rfl, hk⟩)⟩
    · obtain ⟨target, ht⟩ := h.named k i hi
      exact ⟨target, (htarget i target k).2 (Or.inr ⟨hk, ht⟩)⟩
  · show (p.center.set id n.body).get i = some body ↔ ∃ time m, _ ∧ InEffect Hides (p.log ++ [_]) _
    simp only [inEffect_concat]
    rw [InsertionMap.get_set]
    split_ifs with hi
    · subst hi
      rw [Option.some.injEq]
      constructor
      · rintro rfl
        exact ⟨p.now, n, rfl, Or.inl rfl⟩
      · rintro ⟨time, m, rfl, heq | ⟨he, hne⟩⟩
        · rw [(NotifyEntry.sent.inj heq).2.2]
        · exact absurd (hold time m he.mem).symm hne
    · rw [h.shown]
      refine exists_congr fun time => exists_congr fun m => and_congr_right fun _ => ?_
      rw [or_iff_right fun heq => hi (NotifyEntry.sent.inj heq).2.1.symm]
      refine (and_iff_left_of_imp fun he hk => hi (hcurrent i ?_)).symm
      rw [show n.conversationKey = m.conversationKey from hk]
      exact h.named_of_hides he
  · show (p.notifyActionTargets.set id _).get i = _ ↔ ∃ time m, _ ∧ _ ∧ InEffect Releases (p.log ++ [_]) _
    simp only [inEffect_concat]
    rw [htarget, h.leads]
    constructor
    · rintro (⟨rfl, ht, hk⟩ | ⟨hk, time, m, ht, rfl, he⟩)
      · exact ⟨p.now, n, ht, hk, Or.inl rfl⟩
      · exact ⟨time, m, ht, rfl, Or.inr ⟨he, hk⟩⟩
    · rintro ⟨time, m, rfl, rfl, heq | ⟨he, hk⟩⟩
      · obtain ⟨-, rfl, rfl⟩ := NotifyEntry.sent.inj heq
        exact Or.inl ⟨rfl, rfl, rfl⟩
      · exact Or.inr ⟨hk, time, m, rfl, rfl, he⟩
  · rcases inEffect_concat.1 he with heq | ⟨he, hne⟩
    · obtain ⟨rfl, rfl, rfl⟩ := NotifyEntry.sent.inj heq
      exact ⟨_, (htimeout _ _).2 (Or.inl ⟨rfl, rfl⟩)⟩
    · obtain ⟨t, ht⟩ := h.timed time i m he
      exact ⟨t, (htimeout t _).2 (Or.inr ⟨ht, hne⟩)⟩
  · rcases (htimeout t x).1 hx with ⟨-, rfl⟩ | ⟨hx, hk⟩
    · exact (hid _ _).2 (Or.inl ⟨rfl, rfl⟩)
    · exact (hid _ _).2 (Or.inr ⟨hk, h.timerId t x hx⟩)
  · rcases (hid k i).1 hi with ⟨-, rfl⟩ | ⟨-, hi⟩
    · exact hlt
    · exact (h.counter k i hi).trans_le hle
  · rcases hsent time i m hm with hm | ⟨rfl, -⟩
    · exact (h.used time i m hm).trans_le hle
    · exact hlt
  · rcases (hid k i).1 hi with ⟨hk, rfl⟩ | ⟨hk, hi⟩
    · rcases hsent time id m hm with hm | ⟨-, rfl⟩
      · exact (hold time m hm).trans hk
      · exact hk
    · rcases hsent time i m hm with hm | ⟨rfl, -⟩
      · exact h.mine time i m k hm hi
      · exact absurd (hkey k hi).symm hk
  · rcases hsent time i m hm with hm | ⟨rfl, rfl⟩
    · rcases hsent time' i m' hm' with hm' | ⟨rfl, rfl⟩
      · exact h.own time time' i m m' hm hm'
      · exact hold time m hm
    · rcases hsent time' id m' hm' with hm' | ⟨-, rfl⟩
      · exact (hold time' m' hm').symm
      · rfl

theorem Rings.hidden (h : p.Rings) {center : InsertionMap ℕ String} {timers : InsertionMap String ℕ}
    {timeouts : InsertionMap ℕ (ℕ × ℕ × String)} {i₀ : ℕ} (harmed : Armed (·.2.2) timers timeouts p.nextTimer)
    (hcenter : ∀ i, center.get i = if i₀ = i then none else p.center.get i)
    (htimeouts : ∀ t x, timeouts.get t = some x → p.clearTimeouts.get t = some x)
    (hkeeps : ∀ t x, p.clearTimeouts.get t = some x → x.2.1 ≠ i₀ → timeouts.get t = some x) :
    Rings { p with center, notifyClearTimers := timers, clearTimeouts := timeouts, log := p.log ++ [.removed i₀] } := by
  have hsent : ∀ time i n, .sent time i n ∈ p.log ++ [.removed i₀] → .sent time i n ∈ p.log := fun time i n hm => by
    simpa using hm
  refine ⟨h.target, h.named, fun i body => ?_, fun i target key => ?_, fun time i n he => ?_, harmed,
    fun t x hx => h.timerId t x (htimeouts t x hx), h.counter, fun time i n hm => h.used time i n (hsent _ _ _ hm),
    fun time i n key hm => h.mine time i n key (hsent _ _ _ hm),
    fun time time' i n n' hm hm' => h.own time time' i n n' (hsent _ _ _ hm) (hsent _ _ _ hm')⟩
  · show center.get i = _ ↔ ∃ time n, _ ∧ InEffect Hides (p.log ++ [_]) _
    simp only [inEffect_concat, reduceCtorEq, false_or]
    rw [hcenter]
    split_ifs with hi
    · refine iff_of_false id ?_
      rintro ⟨time, n, -, -, hne⟩
      exact hne hi
    · rw [h.shown]
      exact exists_congr fun time => exists_congr fun n => and_congr_right fun _ => (and_iff_left hi).symm
  · show p.notifyActionTargets.get i = _ ↔ ∃ time n, _ ∧ _ ∧ InEffect Releases (p.log ++ [_]) _
    simp only [inEffect_concat, reduceCtorEq, false_or]
    rw [h.leads]
    refine exists_congr fun time => exists_congr fun n => and_congr_right fun _ => and_congr_right fun _ => ?_
    exact (and_iff_left id).symm
  · rcases inEffect_concat.1 he with heq | ⟨he, hne⟩
    · cases heq
    · obtain ⟨t, ht⟩ := h.timed time i n he
      exact ⟨t, hkeeps t _ ht (Ne.symm hne)⟩

theorem Rings.dismiss (h : p.Rings) (i : ℕ) : (p.dismiss i).Rings :=
  h.hidden h.armed (fun _ => InsertionMap.get_delete) (fun _ _ hx => hx) fun _ _ hx _ => hx

theorem Rings.autoClear (h : p.Rings) (t₀ : ℕ) : (p.autoClear t₀).Rings := by
  unfold NotifyPage.autoClear
  cases hx₀ : p.clearTimeouts.get t₀ with
  | none => exact h
  | some x₀ =>
    obtain ⟨due, i₀, key⟩ := x₀
    dsimp only
    split_ifs with hnow
    · exact h
    · have hget : ∀ t, (p.clearTimeouts.delete t₀).get t =
          if p.notifyClearTimers.get key = some t then none else p.clearTimeouts.get t := fun t => by
        rw [InsertionMap.get_delete, (h.armed.timer key t₀).2 ⟨_, hx₀, rfl⟩]
        simp
      refine h.hidden (h.armed.disarm hget fun k => InsertionMap.get_delete) (fun _ => InsertionMap.get_delete)
        (fun t x hx => ((h.armed.get_disarm hget).1 hx).1) fun t x hx hne => (h.armed.get_disarm hget).2 ⟨hx, fun hk => ?_⟩
      -- the id is the key's
      have hid := h.timerId t x hx
      rw [← hk] at hid
      exact hne (Option.some_injective _ (hid.symm.trans (h.timerId t₀ _ hx₀)))

/-- What leaves the notification center alone. -/
theorem Rings.other {p' : NotifyPage} {e : NotifyEntry} (h : p.Rings) (he : ¬ Apart e)
    (hids : p'.notifyIds = p.notifyIds) (hcounter : p'.notifyIdCounter = p.notifyIdCounter)
    (htargets : p'.notifyActionTargets = p.notifyActionTargets) (hcenter : p'.center = p.center)
    (htimers : p'.notifyClearTimers = p.notifyClearTimers) (htimeouts : p'.clearTimeouts = p.clearTimeouts)
    (hnext : p.nextTimer ≤ p'.nextTimer) (hlog : p'.log = p.log ++ [e]) : p'.Rings := by
  have hsent : ∀ time i n, .sent time i n ∈ p'.log → .sent time i n ∈ p.log := by
    intro time i n hm
    rw [hlog, List.mem_append, List.mem_singleton] at hm
    refine hm.resolve_right fun heq => he ?_
    rw [← heq]
    trivial
  have heffect : ∀ ends : NotifyEntry → NotifyEntry → Prop, ends = Hides ∨ ends = Releases → ∀ time i n,
      (InEffect ends p'.log (.sent time i n) ↔ InEffect ends p.log (.sent time i n)) := by
    intro ends hends time i n
    rw [hlog, inEffect_concat]
    rcases hends with rfl | rfl <;> cases e <;> simp [Apart, Hides, Releases] at he ⊢
  refine ⟨?_, ?_, ?_, ?_, ?_, ?_, ?_, ?_, ?_, ?_, ?_⟩
  · rw [htargets, hids]
    exact h.target
  · rw [htargets, hids]
    exact h.named
  · intro i body
    simp only [heffect Hides (Or.inl rfl)]
    rw [hcenter]
    exact h.shown i body
  · intro i target key
    simp only [heffect Releases (Or.inr rfl)]
    rw [htargets]
    exact h.leads i target key
  · intro time i n he
    rw [htimeouts]
    exact h.timed time i n ((heffect Hides (Or.inl rfl) time i n).1 he)
  · rw [htimers, htimeouts]
    exact h.armed.later hnext
  · rw [htimeouts, hids]
    exact h.timerId
  · rw [hids, hcounter]
    exact h.counter
  · rw [hcounter]
    exact fun time i n hm => h.used time i n (hsent _ _ _ hm)
  · rw [hids]
    exact fun time i n key hm => h.mine time i n key (hsent _ _ _ hm)
  · exact fun time time' i n n' hm hm' => h.own time time' i n n' (hsent _ _ _ hm) (hsent _ _ _ hm')

/-! Where the focus leads -/

structure Nav (p : NotifyPage) : Prop where
  effect : ∀ time i n, InEffect Diverts p.log (.sent time i n) → n.target ≠ none →
    p.pendingNavTarget = n.target ∧ p.pendingNavKey = some n.conversationKey ∧ p.pendingNavAt = time
  target : ∀ t, p.pendingNavTarget = some t → ∃ time i n, InEffect Diverts p.log (.sent time i n) ∧ n.target = some t

theorem Nav.has_key (h : p.Nav) {t : ActiveConversation} (ht : p.pendingNavTarget = some t) :
    ∃ key, p.pendingNavKey = some key := by
  obtain ⟨time, i, n, he, hn⟩ := h.target t ht
  exact ⟨_, (h.effect time i n he (by rw [hn]; exact Option.some_ne_none _)).2.1⟩

theorem Nav.clear (h : p.Nav) : (p.clearConversationNotification key).Nav := by
  obtain ⟨ids, targets, center, timeouts, timers, heq, -⟩ := clear_eq p key
  rw [heq]
  refine ⟨fun time i n he hn => ?_, fun t ht => ?_⟩
  · rcases inEffect_concat.1 he with heq | ⟨he, hne⟩
    · cases heq
    · obtain ⟨ht, hk, htime⟩ := h.effect time i n he hn
      have hother : p.pendingNavKey ≠ some key := fun hk' => hne (Option.some_injective _ (hk'.symm.trans hk))
      dsimp only
      rw [if_neg hother, if_neg hother, if_neg hother]
      exact ⟨ht, hk, htime⟩
  · dsimp only at ht
    split_ifs at ht with hkey
    obtain ⟨time, i, n, he, hn⟩ := h.target t ht
    refine ⟨time, i, n, inEffect_concat.2 (Or.inr ⟨he, fun hk => hkey ?_⟩), hn⟩
    rw [(h.effect time i n he (by rw [hn]; exact Option.some_ne_none _)).2.1]
    exact congrArg some (show key = n.conversationKey from hk).symm

theorem Nav.send (h : p.Nav) : (p.send n).Nav := by
  obtain ⟨id, ids, counter, timeouts, heq, -⟩ := send_eq p n
  rw [heq]
  refine ⟨fun time i m he hm => ?_, fun t ht => ?_⟩
  · dsimp only
    rcases inEffect_concat.1 he with heq | ⟨he, hne⟩
    · obtain ⟨rfl, -, rfl⟩ := NotifyEntry.sent.inj heq
      rw [if_neg hm, if_neg hm, if_neg hm]
      exact ⟨rfl, rfl, rfl⟩
    · have hnone : n.target = none := not_not.1 hne
      rw [if_pos hnone, if_pos hnone, if_pos hnone]
      exact h.effect time i m he hm
  · dsimp only at ht
    split_ifs at ht with hnone
    · obtain ⟨time, i, m, he, hm⟩ := h.target t ht
      exact ⟨time, i, m, inEffect_concat.2 (Or.inr ⟨he, not_not.2 hnone⟩), hm⟩
    · exact ⟨_, _, n, inEffect_concat.2 (Or.inl rfl), ht⟩

/-- What neither sends nor clears. -/
theorem Nav.other {p' : NotifyPage} {e : NotifyEntry} (h : p.Nav) (he : ∀ time i n, e ≠ .sent time i n)
    (hclear : ∀ key, e ≠ .cleared key) (htarget : p'.pendingNavTarget = p.pendingNavTarget)
    (hkey : p'.pendingNavKey = p.pendingNavKey) (htime : p'.pendingNavAt = p.pendingNavAt)
    (hlog : p'.log = p.log ++ [e]) : p'.Nav := by
  have heffect : ∀ time i n, InEffect Diverts p'.log (.sent time i n) ↔ InEffect Diverts p.log (.sent time i n) := by
    intro time i n
    rw [hlog, inEffect_concat, or_iff_right fun heq => he time i n heq.symm, and_iff_left]
    cases e with
    | sent time i n => exact absurd rfl (he time i n)
    | cleared key => exact absurd rfl (hclear key)
    | called time n => exact id
    | asked time n => exact id
    | removed i => exact id
  refine ⟨fun time i n heff hn => ?_, fun t ht => ?_⟩
  · rw [htarget, hkey, htime]
    exact h.effect time i n ((heffect time i n).1 heff) hn
  · rw [htarget] at ht
    obtain ⟨time, i, n, heff, hn⟩ := h.target t ht
    exact ⟨time, i, n, (heffect time i n).2 heff, hn⟩

/-- The focus leads somewhere as if the user went there. -/
theorem focus_fresh {target : ActiveConversation} (ht : p.pendingNavTarget = some target)
    (hkey : p.pendingNavKey = some key) (hnow : p.now - p.pendingNavAt < 30000) : p.onFocusChanged true =
      ((p.setActiveConversation (some target)).markRead key).clearConversationNotification key := by
  have hkey' : (p.setActiveConversation (some target)).pendingNavKey = some key := hkey
  unfold onFocusChanged
  rw [if_neg (show ¬ (!true) = true from Bool.false_ne_true), ht]
  dsimp only
  rw [if_pos hnow, hkey']
  obtain ⟨ids, targets, center, timeouts, timers, heq, -⟩ :=
    clear_eq ((p.setActiveConversation (some target)).markRead key) key
  dsimp only
  rw [heq]
  unfold dropNav setActiveConversation markRead
  dsimp only
  rw [hkey, if_pos rfl, if_pos rfl, if_pos rfl]

theorem focus_stale (h : p.pendingNavTarget ≠ none → 30000 ≤ p.now - p.pendingNavAt) : p.onFocusChanged true = p := by
  unfold onFocusChanged
  rw [if_neg (show ¬ (!true) = true from Bool.false_ne_true)]
  cases ht : p.pendingNavTarget with
  | none => rfl
  | some target => exact if_neg (not_lt.2 (h (by rw [ht]; exact Option.some_ne_none _)))

/-! Together -/

structure Inv (p : NotifyPage) : Prop where
  waits : p.Waits
  rings : p.Rings
  nav : p.Nav

/-- What the notices do not depend on. -/
theorem Inv.quiet (h : p.Inv) (now : ℕ) (localDid : Option Did) (active ref : Option ActiveConversation)
    (unread : Finset String) : Inv { p with
      now, localDid, activeConversation := active, activeConversationRef := ref, unreadConversations := unread } :=
  ⟨⟨h.waits.armed, h.waits.waiting, h.waits.due, h.waits.body, h.waits.asked, h.waits.sent⟩,
    ⟨h.rings.target, h.rings.named, h.rings.shown, h.rings.leads, h.rings.timed, h.rings.armed, h.rings.timerId,
      h.rings.counter, h.rings.used, h.rings.mine, h.rings.own⟩,
    ⟨h.nav.effect, h.nav.target⟩⟩

theorem Inv.clear (h : p.Inv) (key : String) : (p.clearConversationNotification key).Inv :=
  ⟨h.waits.clear, h.rings.clear, h.nav.clear⟩

theorem Inv.notify (h : p.Inv) (n : Notice) : (p.notify n).Inv := by
  refine ⟨h.waits.notify, ?_, ?_⟩
  · obtain ⟨timeouts, heq, -⟩ := notify_eq p n
    rw [heq]
    exact h.rings.other (e := .called p.now n) id rfl rfl rfl rfl rfl rfl (Nat.le_succ _) rfl
  · obtain ⟨timeouts, heq, -⟩ := notify_eq p n
    rw [heq]
    exact h.nav.other (e := .called p.now n) (fun _ _ _ he => by cases he) (fun _ he => by cases he) rfl rfl rfl rfl

theorem Inv.debounced (h : p.Inv) (timer : ℕ) : (p.debounced timer).Inv := by
  refine ⟨h.waits.debounced timer, ?_, ?_⟩
  · unfold NotifyPage.debounced
    cases p.timeouts.get timer with
    | none => exact h.rings
    | some x =>
      dsimp only
      split_ifs
      · exact h.rings
      · exact h.rings.other id rfl rfl rfl rfl rfl rfl le_rfl rfl
  · unfold NotifyPage.debounced
    cases p.timeouts.get timer with
    | none => exact h.nav
    | some x =>
      dsimp only
      split_ifs
      · exact h.nav
      · exact h.nav.other (fun _ _ _ he => by cases he) (fun _ he => by cases he) rfl rfl rfl rfl

theorem Inv.permission (h : p.Inv) (i : ℕ) (granted : Bool) : (p.permission i granted).Inv := by
  have hrings : ∀ asking, Rings { p with asking } := fun _ =>
    ⟨h.rings.target, h.rings.named, h.rings.shown, h.rings.leads, h.rings.timed, h.rings.armed, h.rings.timerId,
      h.rings.counter, h.rings.used, h.rings.mine, h.rings.own⟩
  have hnav : ∀ asking, Nav { p with asking } := fun _ => ⟨h.nav.effect, h.nav.target⟩
  refine ⟨h.waits.permission i granted, ?_, ?_⟩
  · unfold NotifyPage.permission
    cases p.asking[i]? with
    | none => exact h.rings
    | some n =>
      cases granted with
      | false => exact hrings _
      | true => exact (hrings _).send
  · unfold NotifyPage.permission
    cases p.asking[i]? with
    | none => exact h.nav
    | some n =>
      cases granted with
      | false => exact hnav _
      | true => exact (hnav _).send

theorem Inv.autoClear (h : p.Inv) (timer : ℕ) : (p.autoClear timer).Inv := by
  refine ⟨?_, h.rings.autoClear timer, ?_⟩
  · unfold NotifyPage.autoClear
    cases p.clearTimeouts.get timer with
    | none => exact h.waits
    | some x =>
      dsimp only
      split_ifs
      · exact h.waits
      · exact h.waits.other (e := .removed _) trivial rfl rfl rfl le_rfl rfl fun m => (Nat.zero_add _).le
  · unfold NotifyPage.autoClear
    cases p.clearTimeouts.get timer with
    | none => exact h.nav
    | some x =>
      dsimp only
      split_ifs
      · exact h.nav
      · exact h.nav.other (fun _ _ _ he => by cases he) (fun _ he => by cases he) rfl rfl rfl rfl

theorem Inv.dismiss (h : p.Inv) (i : ℕ) : (p.dismiss i).Inv :=
  ⟨h.waits.other (e := .removed i) trivial rfl rfl rfl le_rfl rfl fun m => (Nat.zero_add _).le, h.rings.dismiss i,
    h.nav.other (e := .removed i) (fun _ _ _ he => by cases he) (fun _ he => by cases he) rfl rfl rfl rfl⟩

theorem Inv.receive (h : p.Inv) (e : WsNotice) : (p.receive e).Inv := by
  have hunread : ∀ key, (p.markUnread key).Inv := fun key => h.quiet _ _ _ _ _
  unfold NotifyPage.receive
  cases e with
  | directMessageReceived sender senderName =>
    cases p.localDid with
    | none => exact h
    | some currentDid =>
      dsimp only
      split_ifs
      · exact h
      · exact hunread _
      · exact (hunread _).notify _
  | groupMessageReceived groupId senderName =>
    dsimp only
    split_ifs
    · exact h
    · exact (hunread _).notify _
  | offlineMessagesReceived => exact h.notify _
  | groupInvitationReceived groupId inviterName groupName => exact h.notify _

theorem Inv.onAction (h : p.Inv) (i : ℕ) : (p.onAction i).Inv := by
  unfold NotifyPage.onAction
  cases p.notifyActionTargets.get i with
  | none => exact h
  | some x =>
    obtain ⟨target, key⟩ := x
    cases target with
    | none => exact h.clear key
    | some t => exact (h.quiet _ _ (some t) _ _).clear key

theorem Inv.onFocusChanged (h : p.Inv) (focused : Bool) : (p.onFocusChanged focused).Inv := by
  cases focused with
  | false => exact h
  | true =>
    by_cases hnow : p.pendingNavTarget ≠ none → 30000 ≤ p.now - p.pendingNavAt
    · rw [focus_stale hnow]
      exact h
    · obtain ⟨ht, hnow⟩ := Classical.not_imp.1 hnow
      obtain ⟨target, ht⟩ := Option.ne_none_iff_exists'.1 ht
      obtain ⟨key, hkey⟩ := h.nav.has_key ht
      rw [focus_fresh ht hkey (not_le.1 hnow)]
      exact (h.quiet _ _ (some target) _ _).clear key

theorem Inv.rendered (h : p.Inv) : p.rendered.Inv := by
  have href := h.quiet p.now p.localDid p.activeConversation p.activeConversation p.unreadConversations
  unfold NotifyPage.rendered
  dsimp only
  split
  · exact href.clear _
  · exact href

theorem Inv.step (h : p.Inv) (e : NotifyEvent) : (p.step e).Inv := by
  cases e with
  | elapse ms => exact h.quiet _ _ _ _ _
  | receive e => exact h.receive e
  | debounced timer => exact h.debounced timer
  | permission i granted => exact h.permission i granted
  | autoClear timer => exact h.autoClear timer
  | dismiss i => exact h.dismiss i
  | onAction i => exact h.onAction i
  | onFocusChanged focused => exact h.onFocusChanged focused
  | setActiveConversation active => exact h.quiet _ _ _ _ _
  | markRead key => exact h.quiet _ _ _ _ _
  | seedUnread ids => exact h.quiet _ _ _ _ _
  | rendered => exact h.rendered
  | signIn did => exact h.quiet _ _ _ _ _

theorem inv_new : new.Inv := by
  have hnone : ∀ ends e, ¬ InEffect ends new.log e := fun _ _ => not_inEffect_nil
  refine ⟨?_, ?_, ?_⟩
  · refine ⟨⟨fun key t => ?_, fun t _ => rfl⟩, fun time n => ?_, fun t x hx => ?_, fun t x hx => ?_,
      fun early time n late hlog => ?_, fun n => le_rfl⟩
    · refine iff_of_false (fun ht => ?_) ?_
      · cases ht
      · rintro ⟨x, hx, -⟩
        cases hx
    · refine iff_of_false (hnone _ _) ?_
      rintro ⟨t, ht⟩
      cases ht
    · cases hx
    · cases hx
    · simp [new] at hlog
  · refine ⟨fun i target key ht => ?_, fun key i hi => ?_, fun i body => ?_, fun i target key => ?_,
      fun time i n he => absurd he (hnone _ _), ⟨fun key t => ?_, fun t _ => rfl⟩, fun t x hx => ?_, fun key i hi => ?_,
      fun time i n hm => ?_, fun time i n key hm => ?_, fun time time' i n n' hm => ?_⟩
    · cases ht
    · cases hi
    · refine iff_of_false (fun hb => ?_) ?_
      · cases hb
      · rintro ⟨time, n, -, he⟩
        exact hnone _ _ he
    · refine iff_of_false (fun ht => ?_) ?_
      · cases ht
      · rintro ⟨time, n, -, -, he⟩
        exact hnone _ _ he
    · refine iff_of_false (fun ht => ?_) ?_
      · cases ht
      · rintro ⟨x, hx, -⟩
        cases hx
    · cases hx
    · cases hi
    · cases hm
    · cases hm
    · cases hm
  · exact ⟨fun time i n he => absurd he (hnone _ _), fun t ht => by cases ht⟩

theorem inv_of_reachable (h : StepSystem.Reachable notifySys p) : p.Inv :=
  h.invariant (fun _ hinit => hinit ▸ inv_new) fun _ e hi _ => hi.step e

/-- However the calls, the timeouts and the answers to the permission come: a burst is told of once, when it is over,
with its last message. -/
theorem bursts_debounced (h : StepSystem.Reachable notifySys p) : p.Debounced := by
  have hi := inv_of_reachable h
  exact ⟨hi.waits.waiting, fun t t' x x' => hi.waits.armed.single, hi.waits.asked, hi.waits.sent⟩

/-- Two messages of a group within half a second. -/
def burst : NotifyPage :=
  [.receive (.groupMessageReceived "g" "Bob"), .elapse 100, .receive (.groupMessageReceived "g" "Eve")].foldl
    NotifyPage.step new

def told (name : String) : Notice := ⟨"g", "New group message from " ++ name, some (.group "g")⟩

theorem burst_reachable : StepSystem.Reachable notifySys burst :=
  StepSystem.reachable_foldl (M := notifySys) (.init rfl) _

theorem bursts_debounced_burst : InEffect Rearms burst.log (.called 100 (told "Eve")) :=
  ((bursts_debounced burst_reachable).waiting 100 (told "Eve")).2 ⟨2, rfl⟩

theorem center_right (h : StepSystem.Reachable notifySys p) : p.Centered := by
  have hi := inv_of_reachable h
  exact ⟨hi.rings.shown, hi.rings.leads, hi.rings.timed, hi.rings.own⟩

/-- The burst is over, and it is told of. -/
def banner : NotifyPage := [.elapse 500, .debounced 2, .permission 0 true].foldl NotifyPage.step burst

theorem banner_reachable : StepSystem.Reachable notifySys banner := StepSystem.reachable_foldl burst_reachable _

theorem center_right_banner : ∃ time n, n.body = (told "Eve").body ∧ InEffect Hides banner.log (.sent time 1 n) :=
  ((center_right banner_reachable).shown 1 _).1 rfl

theorem focus_led (h : StepSystem.Reachable notifySys p) : p.Led := by
  have hi := inv_of_reachable h
  refine ⟨fun time i n target he hn hnow => ?_, fun hold => focus_stale fun hne => ?_⟩
  · obtain ⟨ht, hk, rfl⟩ := hi.nav.effect time i n he (by rw [hn]; exact Option.some_ne_none _)
    rw [focus_fresh (ht.trans hn) hk hnow]
    obtain ⟨ids, targets, center, timeouts, timers, heq, -⟩ :=
      clear_eq ((p.setActiveConversation (some target)).markRead n.conversationKey) n.conversationKey
    rw [heq]
    refine ⟨rfl, Finset.notMem_erase _ _, focus_stale fun hne => absurd ?_ hne⟩
    exact if_pos hk
  · obtain ⟨t, ht⟩ := Option.ne_none_iff_exists'.1 hne
    obtain ⟨time, i, n, he, hn⟩ := hi.nav.target t ht
    have hsome : n.target ≠ none := by rw [hn]; exact Option.some_ne_none _
    rw [(hi.nav.effect time i n he hsome).2.2]
    exact hold time i n he hsome

theorem focus_led_banner : (banner.onFocusChanged true).activeConversation = some (.group "g") :=
  ((focus_led banner_reachable).leads 600 1 (told "Eve") (.group "g")
    ⟨[.called 0 (told "Bob"), .called 100 (told "Eve"), .asked 600 (told "Eve")], [], rfl, fun _ hb => by cases hb⟩
    rfl (by decide)).1

end NotifyPage
end Variance
