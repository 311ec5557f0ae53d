import Mathlib.Algebra.BigOperators.Ring.Finset
import Mathlib.Algebra.Order.BigOperators.Group.Finset
import Mathlib.Algebra.Order.Group.MinMax
import Mathlib.Algebra.Order.Ring.Defs
import Mathlib.Tactic.Linarith
import Mathlib.Tactic.Ring

/-! Token buckets. A bucket fills at a rate up to its capacity, and what is let through takes a token each. What a run
of calls takes in an interval is bounded by the capacity and what the interval brings, whatever else the system does
between the calls, if no step leaves the bucket with more than it had less what was taken. -/

namespace Metering

section
variable {α ε : Type*} [LinearOrder α] {time : ε → α} {now start : α} {es fs : List ε}

/-- The times do not decrease. -/
def Timed (time : ε → α) : α → List ε → Prop
  | _, [] => True
  | now, e :: es => now ≤ time e ∧ Timed time (time e) es

theorem Timed.left (h : Timed time now (es ++ fs)) : Timed time now es := by
  induction es generalizing now with
  | nil => trivial
  | cons e es ih => exact ⟨h.1, ih h.2⟩

/-- Calls that come after others may start from any time that they do not precede. -/
theorem Timed.right (h : Timed time now (es ++ fs)) (hstart : ∀ e ∈ fs, start ≤ time e) : Timed time start fs := by
  induction es generalizing now with
  | nil =>
    cases fs with
    | nil => trivial
    | cons e fs => exact ⟨hstart e List.mem_cons_self, h.2⟩
  | cons e es ih => exact ih h.2

end

variable {α : Type*} [CommRing α] [LinearOrder α]

/-- What a bucket with some tokens at one time has at another. -/
def level (capacity rate tokens last now : α) : α := min (tokens + (now - last) * rate) capacity

variable {capacity rate tokens last now later : α}

section

theorem level_le_capacity : level capacity rate tokens last now ≤ capacity := min_le_right _ _

theorem level_self (htokens : tokens ≤ capacity) : level capacity rate tokens now now = tokens := by
  unfold level
  rw [sub_self, zero_mul, add_zero, min_eq_left htokens]

variable [IsStrictOrderedRing α]

theorem level_nonneg (hcapacity : 0 ≤ capacity) (hrate : 0 ≤ rate) (htokens : 0 ≤ tokens) (hlast : last ≤ now) :
    0 ≤ level capacity rate tokens last now := by
  have hgained : 0 ≤ (now - last) * rate := mul_nonneg (sub_nonneg.2 hlast) hrate
  exact le_min (by linarith) hcapacity

/-- Looking does not matter. -/
theorem level_level (hrate : 0 ≤ rate) (h : now ≤ later) :
    level capacity rate (level capacity rate tokens last now) now later = level capacity rate tokens last later := by
  have hgained : 0 ≤ (later - now) * rate := mul_nonneg (sub_nonneg.2 h) hrate
  have hsum : tokens + (now - last) * rate + (later - now) * rate = tokens + (later - last) * rate := by ring
  unfold level
  rw [← hsum]
  rcases le_total (tokens + (now - last) * rate) capacity with hle | hle
  · rw [min_eq_left hle]
  · rw [min_eq_right hle, min_eq_right (by linarith), min_eq_right (by linarith)]

theorem level_le_add (hrate : 0 ≤ rate) (h : now ≤ later) :
    level capacity rate tokens last later ≤ level capacity rate tokens last now + (later - now) * rate := by
  have hgained : 0 ≤ (later - now) * rate := mul_nonneg (sub_nonneg.2 h) hrate
  have hsum : tokens + (now - last) * rate + (later - now) * rate = tokens + (later - last) * rate := by ring
  unfold level
  rw [← hsum]
  rcases le_total (tokens + (now - last) * rate) capacity with hle | hle
  · rw [min_eq_left hle]
    exact min_le_left _ _
  · rw [min_eq_right hle]
    exact (min_le_right _ _).trans (by linarith)

/-- What a bucket lacks comes in at its rate until nothing does. -/
theorem capacity_sub_level : capacity - level capacity rate tokens now later =
    max (capacity - tokens - (later - now) * rate) 0 := by
  have hlack : capacity - (tokens + (later - now) * rate) = capacity - tokens - (later - now) * rate := by ring
  unfold level
  rw [← max_sub_sub_left, hlack, sub_self]

/-- A bucket that lacks no more than some others together, and fills as fast as they do, goes on so. -/
theorem capacity_sub_level_le_sum {ι : Type*} {others : Finset ι} {capacities rates had : ι → α}
    (hrates : ∑ i ∈ others, rates i ≤ rate) (hlack : capacity - tokens ≤ ∑ i ∈ others, (capacities i - had i))
    (h : now ≤ later) :
    capacity - level capacity rate tokens now later ≤
      ∑ i ∈ others, (capacities i - level (capacities i) (rates i) (had i) now later) := by
  rw [capacity_sub_level]
  refine max_le ?_ (Finset.sum_nonneg fun i _ => sub_nonneg.2 level_le_capacity)
  have hbrings : (later - now) * ∑ i ∈ others, rates i ≤ (later - now) * rate :=
    mul_le_mul_of_nonneg_left hrates (sub_nonneg.2 h)
  calc capacity - tokens - (later - now) * rate
      ≤ ∑ i ∈ others, (capacities i - had i) - (later - now) * ∑ i ∈ others, rates i := by linarith
    _ = ∑ i ∈ others, (capacities i - had i - (later - now) * rates i) := by
      rw [Finset.mul_sum, ← Finset.sum_sub_distrib]
    _ ≤ ∑ i ∈ others, (capacities i - level (capacities i) (rates i) (had i) now later) := by
      refine Finset.sum_le_sum fun i _ => ?_
      rw [capacity_sub_level]
      exact le_max_left _ _

end

/-! Runs -/

variable {σ ε : Type*} {step : σ → ε → σ} {time : ε → α} {takes : σ → ε → Bool} {ok : ε → Prop} {inv : σ → α → Prop}
  {levelOf : σ → α → α}

omit [CommRing α] in
/-- What each call keeps at its time, and time by itself, a run of calls in time keeps. -/
theorem Timed.foldl {now later : α} {es : List ε} {s : σ} (ht : Timed time now es)
    (keeps : ∀ s now e, inv s now → now ≤ time e → inv (step s e) (time e))
    (rests : ∀ s now t, inv s now → now ≤ t → inv s t) (hs : inv s now) (hle : ∀ e ∈ es, time e ≤ later)
    (hnow : now ≤ later) : inv (es.foldl step s) later := by
  induction es generalizing s now with
  | nil => exact rests s now later hs hnow
  | cons e es ih =>
    exact ih ht.2 (keeps s now e hs ht.1) (fun e' he' => hle e' (List.mem_cons_of_mem _ he')) (hle e List.mem_cons_self)

/-- How many of the calls take a token. -/
def taken (step : σ → ε → σ) (takes : σ → ε → Bool) : σ → List ε → ℕ
  | _, [] => 0
  | s, e :: es => (if takes s e then 1 else 0) + taken step takes (step s e) es

/-- What a system keeps of one of its buckets. -/
structure Metered (step : σ → ε → σ) (time : ε → α) (takes : σ → ε → Bool) (ok : ε → Prop) (inv : σ → α → Prop)
    (levelOf : σ → α → α) (capacity rate : α) : Prop where
  rate_nonneg : 0 ≤ rate
  keeps : ∀ s now e, inv s now → now ≤ time e → inv (step s e) (time e)
  later : ∀ s now t, inv s now → now ≤ t → inv s t
  nonneg : ∀ s now, inv s now → 0 ≤ levelOf s now
  le_capacity : ∀ s now, inv s now → levelOf s now ≤ capacity
  fills : ∀ s now t, inv s now → now ≤ t → levelOf s t ≤ levelOf s now + (t - now) * rate
  drains : ∀ s e, inv s (time e) → ok e → levelOf (step s e) (time e) + (if takes s e then 1 else 0) ≤ levelOf s (time e)

namespace Metered
variable (M : Metered step time takes ok inv levelOf capacity rate)
include M

theorem inv_foldl {es : List ε} {s : σ} (hs : inv s now) (ht : Timed time now es) (hle : ∀ e ∈ es, time e ≤ later)
    (hnow : now ≤ later) : inv (es.foldl step s) later :=
  ht.foldl M.keeps M.later hs hle hnow

variable [IsStrictOrderedRing α]

/-- What was taken and what is left is no more than there was and what came. -/
theorem taken_add_level_le {es : List ε} {s : σ} (hs : inv s now) (ht : Timed time now es) (hok : ∀ e ∈ es, ok e)
    (hle : ∀ e ∈ es, time e ≤ later) (hnow : now ≤ later) :
    (taken step takes s es : α) + levelOf (es.foldl step s) later ≤ levelOf s now + (later - now) * rate := by
  induction es generalizing s now with
  | nil =>
    have hfills := M.fills s now later hs hnow
    simpa [taken] using hfills
  | cons e es ih =>
    have hat : inv s (time e) := M.later s now (time e) hs ht.1
    have hfills := M.fills s now (time e) hs ht.1
    have hdrains := M.drains s e hat (hok e List.mem_cons_self)
    have hrest := ih (M.keeps s now e hs ht.1) ht.2 (fun e' he' => hok e' (List.mem_cons_of_mem _ he'))
      (fun e' he' => hle e' (List.mem_cons_of_mem _ he')) (hle e List.mem_cons_self)
    have hsplit : (later - time e) * rate + (time e - now) * rate = (later - now) * rate := by ring
    rw [List.foldl_cons]
    unfold taken
    push_cast
    linarith

/-- The bound on an interval. -/
theorem taken_le {es : List ε} {s : σ} {length : α} (hs : inv s now) (ht : Timed time now es) (hok : ∀ e ∈ es, ok e)
    (hlength : 0 ≤ length) (hle : ∀ e ∈ es, time e ≤ now + length) :
    (taken step takes s es : α) ≤ capacity + rate * length := by
  have hnow : now ≤ now + length := by linarith
  have htaken := M.taken_add_level_le hs ht hok hle hnow
  have hend : inv (es.foldl step s) (now + length) := M.inv_foldl hs ht hle hnow
  have hnonneg := M.nonneg _ _ hend
  have hcapacity := M.le_capacity s now hs
  have hbrings : (now + length - now) * rate = rate * length := by ring
  linarith

end Metered
end Metering
