import Mathlib.Data.List.Basic
import Mathlib.Tactic.Common

/-! Histories of keyed slots that hold one value each, newest event first. In a faithful history a
slot is filled only when empty and what is taken is what it held, so the first event to touch a slot
after a value was put there takes that very value. -/

namespace SlotLog

/-- What an event does to a slot. -/
inductive Act (K V : Type*)
  | put (k : K) (v : V)
  | take (k : K) (v : V)
  | other

variable {ε K V : Type*} [DecidableEq K] (view : ε → Act K V)

/-- What the slot `k` holds at the end of a history. -/
def held (k : K) : List ε → Option V
  | [] => none
  | e :: past =>
    match view e with
    | .put k' v => if k' = k then some v else held k past
    | .take k' _ => if k' = k then none else held k past
    | .other => held k past

def Faithful : List ε → Prop
  | [] => True
  | e :: past => Faithful past ∧
    match view e with
    | .put k _ => held view k past = none
    | .take k v => held view k past = some v
    | .other => True

def touches (k : K) (e : ε) : Bool :=
  match view e with
  | .put k' _ => k' = k
  | .take k' _ => k' = k
  | .other => false

def fills (k : K) (e : ε) : Bool :=
  match view e with
  | .put k' _ => k' = k
  | _ => false

variable {view} {k : K} {v : V} {e : ε} {past post : List ε}

theorem held_other (h : view e = .other) : held view k (e :: past) = held view k past := by
  simp [held, h]

/-- What a slot holds is what was last put there. -/
theorem held_last (h : held view k past = some v) :
    ∃ e, past.find? (fills view k) = some e ∧ view e = .put k v := by
  induction past with
  | nil => simp [held] at h
  | cons e past ih =>
    unfold held at h
    cases he : view e with
    | other => simpa [fills, he] using ih (by simpa [he] using h)
    | put k' v' =>
      simp only [he] at h
      by_cases hk : k' = k
      · obtain rfl : v' = v := by simpa [hk] using h
        exact ⟨e, by simp [fills, he, hk], by rw [he, hk]⟩
      · simpa [fills, he, hk] using ih (by simpa [hk] using h)
    | take k' v' =>
      simp only [he] at h
      by_cases hk : k' = k
      · simp [hk] at h
      · simpa [fills, he] using ih (by simpa [hk] using h)

/-- So is every past of a faithful history. -/
theorem Faithful.drop (h : Faithful view (post ++ past)) : Faithful view past := by
  induction post with
  | nil => exact h
  | cons e post ih => exact ih h.1

/-- The fate of a value: it is still there, or the first event to touch its slot took it. -/
theorem Faithful.fate {pre : List ε} (h : Faithful view (post ++ e :: pre)) (he : view e = .put k v) :
    (held view k (post ++ e :: pre) = some v ∧ ∀ y ∈ post, touches view k y = false) ∨
    ∃ p x q, post = p ++ x :: q ∧ view x = .take k v ∧ ∀ y ∈ q, touches view k y = false := by
  induction post with
  | nil => exact Or.inl ⟨by simp [held, he], by simp⟩
  | cons x post ih =>
    obtain ⟨hpast, hx⟩ := h
    rcases ih hpast with ⟨hheld, hun⟩ | ⟨p, x', q, rfl, hx', hq⟩
    swap
    · exact Or.inr ⟨x :: p, x', q, rfl, hx', hq⟩
    cases hv : view x with
    | other =>
      refine Or.inl ⟨(held_other hv).trans hheld, ?_⟩
      simpa [touches, hv] using hun
    | put k' v' =>
      have hk : k' ≠ k := by
        rintro rfl
        simp [hv, hheld] at hx
      exact Or.inl ⟨by simpa [held, hv, hk] using hheld, by simpa [touches, hv, hk] using hun⟩
    | take k' v' =>
      by_cases hk : k' = k
      · subst hk
        obtain rfl : v = v' := by simpa [hv, hheld] using hx
        exact Or.inr ⟨[], x, post, rfl, hv, hun⟩
      · exact Or.inl ⟨by simpa [held, hv, hk] using hheld, by simpa [touches, hv, hk] using hun⟩

/-- A batch of removals empties the slots it names. -/
theorem held_takes (k : K) (past : List ε) {es : List ε} (hes : ∀ e ∈ es, ∃ k v, view e = .take k v) :
    held view k (es ++ past) = none ∧ (∃ e ∈ es, touches view k e) ∨
    held view k (es ++ past) = held view k past ∧ ∀ e ∈ es, touches view k e = false := by
  induction es with
  | nil => exact Or.inr ⟨rfl, by simp⟩
  | cons e es ih =>
    obtain ⟨k', v', he⟩ := hes e (by simp)
    by_cases hk : k' = k
    · exact Or.inl ⟨by simp [held, he, hk], e, by simp, by simp [touches, he, hk]⟩
    · have hstep : held view k (e :: es ++ past) = held view k (es ++ past) := by simp [held, he, hk]
      rcases ih fun e he => hes e (by simp [he]) with ⟨h, e', he', ht⟩ | ⟨h, ht⟩
      · exact Or.inl ⟨hstep.trans h, e', by simp [he'], ht⟩
      · exact Or.inr ⟨hstep.trans h, by simpa [touches, he, hk] using ht⟩

/-- A batch of removals, each of what its own slot held, keeps the history faithful. -/
theorem Faithful.takes {es : List ε} (h : Faithful view past)
    (hes : ∀ e ∈ es, ∃ k v, view e = .take k v ∧ held view k past = some v)
    (hdist : es.Pairwise fun e e' => ∀ k, touches view k e → touches view k e' = false) :
    Faithful view (es ++ past) := by
  induction es with
  | nil => exact h
  | cons e es ih =>
    rw [List.pairwise_cons] at hdist
    obtain ⟨k', v', he, hheld⟩ := hes e (by simp)
    refine ⟨ih (fun e he => hes e (by simp [he])) hdist.2, ?_⟩
    rw [he]
    have hall : ∀ e ∈ es, ∃ k v, view e = .take k v := fun e he =>
      (hes e (by simp [he])).imp fun _ h => h.imp fun _ h => h.1
    rcases held_takes k' past hall with ⟨-, e', he', ht⟩ | ⟨heq, -⟩
    · rw [hdist.1 e' he' k' (by simp [touches, he])] at ht
      cases ht
    · exact heq.trans hheld

end SlotLog
