import Variance.Spec.RateLimiter

/-! The limiter counts in windows of its own that follow each other, and knows nothing of the one before. -/

namespace Variance
namespace HttpTraffic

variable {w : HttpTraffic} {r : HttpRequest} {windowSecs now start n : ℕ} {times times' : List ℕ}

/-! Counting -/

theorem recent_append : recent windowSecs now (times ++ times') =
    recent windowSecs now times + recent windowSecs now times' := List.countP_append ..

theorem recent_eq_zero (h : ∀ t ∈ times, t + windowSecs ≤ now) : recent windowSecs now times = 0 := by
  unfold recent
  rw [List.countP_eq_zero]
  intro t ht
  have := h t ht
  simp only [decide_eq_true_eq, not_lt]
  exact this

theorem recent_eq_length (h : ∀ t ∈ times, now < t + windowSecs) : recent windowSecs now times = times.length := by
  unfold recent
  rw [List.countP_eq_length]
  intro t ht
  exact decide_eq_true (h t ht)

theorem countFrom_concat : countFrom windowSecs start (times ++ [now]) =
    countFrom windowSecs start times + if start ≤ now ∧ now < start + windowSecs then 1 else 0 := by
  unfold countFrom
  rw [List.countP_append, List.countP_singleton]
  simp only [decide_eq_true_eq]

/-- Of what has been forwarded by now, the stretch that ends now has what is recent. -/
theorem countFrom_now (hle : ∀ t ∈ times, t ≤ now) :
    countFrom windowSecs (now + 1 - windowSecs) times = recent windowSecs now times := by
  unfold countFrom recent
  refine List.countP_congr fun t ht => ?_
  have := hle t ht
  simp only [decide_eq_true_eq]
  omega

theorem countFrom_le_recent (h : now < start + windowSecs) :
    countFrom windowSecs start times ≤ recent windowSecs now times := by
  refine List.countP_mono_left fun t _ ht => ?_
  simp only [decide_eq_true_eq] at ht ⊢
  omega

/-- One more stays within the bound just when fewer than that are recent. -/
theorem bounded_concat_iff (hle : ∀ t ∈ times, t ≤ now) (hb : ∀ start, countFrom windowSecs start times ≤ n) :
    (∀ start, countFrom windowSecs start (times ++ [now]) ≤ n) ↔ windowSecs = 0 ∨ recent windowSecs now times < n := by
  constructor
  · intro h
    by_cases hw : windowSecs = 0
    · exact Or.inl hw
    · right
      have hnow := h (now + 1 - windowSecs)
      rw [countFrom_concat, countFrom_now hle, if_pos (by omega)] at hnow
      omega
  · intro h start
    rw [countFrom_concat]
    split_ifs with hin
    · have hrecent : countFrom windowSecs start times ≤ recent windowSecs now times := countFrom_le_recent hin.2
      rcases h with hw | hlt
      · omega
      · omega
    · exact hb start

/-! What the limiter knows -/

structure Inv (w : HttpTraffic) : Prop where
  parts : ∃ older, w.forwarded = older ++ w.previous ++ w.present ∧
    ∀ t ∈ older, t + w.limiter.windowSecs ≤ w.limiter.state.windowStart
  count : w.present.length = w.limiter.state.count
  present : ∀ t ∈ w.present, w.limiter.state.windowStart ≤ t
  previous : ∀ t ∈ w.previous, t ≤ w.limiter.state.windowStart
  started : w.limiter.state.windowStart ≤ w.clock
  past : ∀ t ∈ w.forwarded, t ≤ w.clock
  bounded : ∀ start, countFrom w.limiter.windowSecs start w.forwarded ≤ w.limiter.maxRequests

theorem inv_new (maxRequests windowSecs : ℕ) : Inv ⟨.new maxRequests windowSecs, 0, [], [], []⟩ where
  parts := ⟨[], rfl, by simp⟩
  count := rfl
  present := by simp
  previous := by simp
  started := le_rfl
  past := by simp
  bounded _ := Nat.zero_le _

/-- When a window is over, what is recent came in it. -/
theorem Inv.recent_over (h : w.Inv) (hs : w.clock ≤ now)
    (ho : w.limiter.windowSecs ≤ now - w.limiter.state.windowStart) :
    recent w.limiter.windowSecs now w.forwarded = recent w.limiter.windowSecs now w.present := by
  have hstart := h.started
  obtain ⟨older, hf, holder⟩ := h.parts
  have hzero : recent w.limiter.windowSecs now older = 0 := recent_eq_zero fun t ht => by
    have := holder t ht
    omega
  have hzero' : recent w.limiter.windowSecs now w.previous = 0 := recent_eq_zero fun t ht => by
    have := h.previous t ht
    omega
  rw [hf, recent_append, recent_append, hzero, hzero']
  omega

/-- Until it is over, all that came in it is recent, and nothing older than the one before. -/
theorem Inv.recent_within (h : w.Inv) (hs : w.clock ≤ now)
    (ho : ¬ w.limiter.windowSecs ≤ now - w.limiter.state.windowStart) :
    recent w.limiter.windowSecs now w.forwarded =
      recent w.limiter.windowSecs now w.previous + w.limiter.state.count := by
  have hstart := h.started
  obtain ⟨older, hf, holder⟩ := h.parts
  have hzero : recent w.limiter.windowSecs now older = 0 := recent_eq_zero fun t ht => by
    have := holder t ht
    omega
  have hall : recent w.limiter.windowSecs now w.present = w.present.length := recent_eq_length fun t ht => by
    have := h.present t ht
    omega
  rw [hf, recent_append, recent_append, hzero, hall, h.count]
  omega

/-! A request -/

/-- One that begins a window. -/
theorem step_over (ho : w.limiter.windowSecs ≤ r.now - w.limiter.state.windowStart) :
    w.step r = { limiter := { w.limiter with state := ⟨1, r.now⟩ }, clock := r.now,
                 forwarded := w.forwarded ++ [r.now], previous := w.present, present := [r.now] } := by
  unfold step LocalRateLimit.call
  simp only [if_pos ho]

/-- One that finds room. -/
theorem step_room (ho : ¬ w.limiter.windowSecs ≤ r.now - w.limiter.state.windowStart)
    (hc : w.limiter.state.count < w.limiter.maxRequests) :
    w.step r = { w with
      limiter := { w.limiter with state := { w.limiter.state with count := w.limiter.state.count + 1 } }
      clock := r.now, forwarded := w.forwarded ++ [r.now], present := w.present ++ [r.now] } := by
  unfold step LocalRateLimit.call
  simp only [if_neg ho, if_pos hc]

/-- One that is refused. -/
theorem step_full (ho : ¬ w.limiter.windowSecs ≤ r.now - w.limiter.state.windowStart)
    (hc : ¬ w.limiter.state.count < w.limiter.maxRequests) : w.step r = { w with clock := r.now } := by
  unfold step LocalRateLimit.call
  simp only [if_neg ho, if_neg hc]

theorem call_over (ho : w.limiter.windowSecs ≤ r.now - w.limiter.state.windowStart) :
    (w.limiter.call r.now).1 = .ok () := by
  unfold LocalRateLimit.call
  rw [if_pos ho]

theorem call_room (ho : ¬ w.limiter.windowSecs ≤ r.now - w.limiter.state.windowStart)
    (hc : w.limiter.state.count < w.limiter.maxRequests) : (w.limiter.call r.now).1 = .ok () := by
  unfold LocalRateLimit.call
  rw [if_neg ho, if_pos hc]

/-- Of what was forwarded none is after now. -/
theorem Inv.past_now (h : w.Inv) (hs : w.Steady r) : ∀ t ∈ w.forwarded, t ≤ r.now :=
  fun t ht => Nat.le_trans (h.past t ht) hs

/-- It is refused only when as many came in its own window, which are all recent. -/
theorem Inv.refuses (h : w.Inv) (hs : w.Steady r) {e : String} (he : (w.limiter.call r.now).1 = .error e) :
    w.limiter.maxRequests ≤ recent w.limiter.windowSecs r.now w.forwarded := by
  by_cases ho : w.limiter.windowSecs ≤ r.now - w.limiter.state.windowStart
  · rw [call_over ho] at he
    cases he
  · by_cases hc : w.limiter.state.count < w.limiter.maxRequests
    · rw [call_room ho hc] at he
      cases he
    · rw [h.recent_within hs ho]
      omega

theorem Inv.slides_iff (h : w.Inv) (hs : w.Steady r) : w.Slides r ↔ w.Careful r := by
  have hslides : w.Slides r ↔
      ∀ start, countFrom w.limiter.windowSecs start (w.step r).forwarded ≤ w.limiter.maxRequests :=
    ⟨fun hw => hw.bounded, fun hb => ⟨hb, fun _ he => h.refuses hs he⟩⟩
  rw [hslides]
  unfold Careful
  by_cases ho : w.limiter.windowSecs ≤ r.now - w.limiter.state.windowStart
  · rw [step_over ho, if_pos ho, ← h.recent_over hs ho]
    exact bounded_concat_iff (h.past_now hs) h.bounded
  · rw [if_neg ho]
    by_cases hc : w.limiter.state.count < w.limiter.maxRequests
    · rw [step_room ho hc, ← h.recent_within hs ho]
      have hiff := bounded_concat_iff (h.past_now hs) h.bounded
      -- a window without length is over at once
      have hw : w.limiter.windowSecs ≠ 0 := by omega
      simpa only [hw, false_or, hc, forall_const] using hiff
    · rw [step_full ho hc]
      exact ⟨fun _ hc' => absurd hc' hc, fun _ => h.bounded⟩

theorem Inv.step (h : w.Inv) (hs : w.Steady r) (hc : w.Careful r) : (w.step r).Inv := by
  have hb := ((h.slides_iff hs).2 hc).bounded
  have hstart := h.started
  have hclock : w.clock ≤ r.now := hs
  by_cases ho : w.limiter.windowSecs ≤ r.now - w.limiter.state.windowStart
  · rw [step_over ho] at hb ⊢
    obtain ⟨older, hf, holder⟩ := h.parts
    refine ⟨⟨older ++ w.previous, by rw [hf], ?_⟩, rfl, ?_, ?_, le_rfl, ?_, hb⟩
    · intro t ht
      show t + w.limiter.windowSecs ≤ r.now
      rcases List.mem_append.1 ht with ht | ht
      · have := holder t ht
        omega
      · have := h.previous t ht
        omega
    · intro t ht
      exact Nat.le_of_eq (List.mem_singleton.1 ht).symm
    · intro t ht
      refine h.past_now hs t ?_
      rw [hf]
      exact List.mem_append_right _ ht
    · intro t ht
      rcases List.mem_append.1 ht with ht | ht
      · exact h.past_now hs t ht
      · exact Nat.le_of_eq (List.mem_singleton.1 ht)
  · by_cases hcount : w.limiter.state.count < w.limiter.maxRequests
    · rw [step_room ho hcount] at hb ⊢
      obtain ⟨older, hf, holder⟩ := h.parts
      refine ⟨⟨older, by rw [hf, List.append_assoc], holder⟩, ?_, ?_, h.previous, Nat.le_trans hstart hclock, ?_, hb⟩
      · rw [List.length_append, h.count]
        rfl
      · intro t ht
        rcases List.mem_append.1 ht with ht | ht
        · exact h.present t ht
        · rw [List.mem_singleton.1 ht]
          exact Nat.le_trans hstart hclock
      · intro t ht
        rcases List.mem_append.1 ht with ht | ht
        · exact h.past_now hs t ht
        · exact Nat.le_of_eq (List.mem_singleton.1 ht)
    · rw [step_full ho hcount] at hb ⊢
      exact { h with started := Nat.le_trans hstart hclock, past := h.past_now hs, bounded := hb }

/-- Whatever the limits and however many services share them. -/
theorem run_slides_iff {maxRequests windowSecs : ℕ} {w : HttpTraffic} (hw : (httpSys maxRequests windowSecs).init w)
    {rs : List HttpRequest} (hs : StepSystem.Guarded (httpSys maxRequests windowSecs) Steady w rs) :
    StepSystem.Guarded (httpSys maxRequests windowSecs) Slides w rs ↔
      StepSystem.Guarded (httpSys maxRequests windowSecs) Careful w rs := by
  refine StepSystem.guarded_iff_under (I := Inv) (fun _ _ h => h.slides_iff) (fun _ _ h => h.step) ?_ hs
  rw [show w = _ from hw]
  exact inv_new _ _

/-- The limit on renaming: two requests now, and a third, by another service, when a minute has passed. -/
def unhurried : List HttpRequest := [⟨0, 1000⟩, ⟨0, 1001⟩, ⟨1, 1060⟩]

theorem unhurried_slides : StepSystem.Guarded (httpSys 3 60) Slides ⟨.new 3 60, 0, [], [], []⟩ unhurried :=
  (run_slides_iff (w := ⟨.new 3 60, 0, [], [], []⟩) rfl (by decide)).2 (by decide)

/-- Three a minute are allowed, and five come through in two seconds. -/
def straddling : List HttpRequest := [⟨0, 1000⟩, ⟨0, 1059⟩, ⟨1, 1059⟩, ⟨0, 1060⟩, ⟨1, 1060⟩, ⟨0, 1060⟩]

theorem straddling_slips : ¬ ∀ (maxRequests windowSecs : ℕ) (w : HttpTraffic),
    (httpSys maxRequests windowSecs).init w → ∀ rs : List HttpRequest,
    StepSystem.Guarded (httpSys maxRequests windowSecs) Steady w rs →
      StepSystem.Guarded (httpSys maxRequests windowSecs) Slides w rs := by
  intro h
  have hslides := h 3 60 _ rfl straddling (by decide)
  have hbounded := hslides.2.2.2.2.2.1.bounded 1059
  exact absurd hbounded (by decide)

/-- A limit of nothing lets one request through in every window. -/
theorem zero_slips (hw : w.limiter.maxRequests = 0) (h : 0 < w.limiter.windowSecs)
    (ho : w.limiter.windowSecs ≤ r.now - w.limiter.state.windowStart) : ¬ w.Slides r := by
  intro hs
  have hbounded := hs.bounded r.now
  rw [step_over ho, hw, countFrom_concat, if_pos ⟨le_rfl, by omega⟩] at hbounded
  omega

end HttpTraffic
end Variance
