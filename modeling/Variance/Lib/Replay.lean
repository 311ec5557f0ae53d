import Mathlib.Data.List.Basic
import Mathlib.Logic.Function.Basic
import Mathlib.Tactic.Common

/-! Logs of writes to keys, the last of which counts. A reader that starts from an old state and goes through a part of
the log ends, for the keys that this part writes, where the log does. -/

namespace Replay

variable {κ ν : Type*} [DecidableEq κ] {view view' : κ → ν} {ws ws' : List (κ × ν)} {w : κ × ν} {k : κ}

def apply (view : κ → ν) (ws : List (κ × ν)) : κ → ν := ws.foldl (fun v w => Function.update v w.1 w.2) view

/-- Some write is to the key. -/
def Writes (ws : List (κ × ν)) (k : κ) : Prop := k ∈ ws.map Prod.fst

instance (ws : List (κ × ν)) (k : κ) : Decidable (Writes ws k) := inferInstanceAs (Decidable (k ∈ ws.map Prod.fst))

@[simp] theorem apply_nil : apply view ([] : List (κ × ν)) = view := rfl

theorem apply_cons : apply view (w :: ws) = apply (Function.update view w.1 w.2) ws := rfl

theorem apply_append : apply view (ws ++ ws') = apply (apply view ws) ws' := List.foldl_append ..

omit [DecidableEq κ] in
@[simp] theorem not_writes_nil : ¬ Writes ([] : List (κ × ν)) k := List.not_mem_nil

omit [DecidableEq κ] in
@[simp] theorem writes_cons : Writes (w :: ws) k ↔ k = w.1 ∨ Writes ws k := List.mem_cons

omit [DecidableEq κ] in
@[simp] theorem writes_append : Writes (ws ++ ws') k ↔ Writes ws k ∨ Writes ws' k := by
  unfold Writes
  rw [List.map_append, List.mem_append]

theorem apply_of_not_writes (h : ¬ Writes ws k) : apply view ws k = view k := by
  induction ws generalizing view with
  | nil => rfl
  | cons w ws ih =>
    rw [writes_cons, not_or] at h
    rw [apply_cons, ih h.2, Function.update_of_ne h.1]

/-- What is written does not depend on what there was. -/
theorem apply_of_writes (h : Writes ws k) : apply view ws k = apply view' ws k := by
  induction ws generalizing view view' with
  | nil => exact absurd h not_writes_nil
  | cons w ws ih =>
    rw [apply_cons, apply_cons]
    by_cases hws : Writes ws k
    · exact ih hws
    · obtain rfl := (writes_cons.1 h).resolve_right hws
      rw [apply_of_not_writes hws, apply_of_not_writes hws, Function.update_self, Function.update_self]

/-- The end of a log tells of the keys that it writes what the whole of it does. -/
theorem apply_suffix (h : ws <:+ ws') (hk : Writes ws k) : apply view ws k = apply view' ws' k := by
  obtain ⟨early, rfl⟩ := h
  rw [apply_append]
  exact apply_of_writes hk

/-- All writes to the key agree. -/
theorem apply_eq_of_forall {v : ν} (hk : Writes ws k) (h : ∀ w ∈ ws, w.1 = k → w.2 = v) : apply view ws k = v := by
  induction ws generalizing view with
  | nil => exact absurd hk not_writes_nil
  | cons w ws ih =>
    rw [apply_cons]
    by_cases hws : Writes ws k
    · exact ih hws fun w hw => h w (List.mem_cons_of_mem _ hw)
    · obtain rfl := (writes_cons.1 hk).resolve_right hws
      rw [apply_of_not_writes hws, Function.update_self, h w List.mem_cons_self rfl]

omit [DecidableEq κ] in
theorem Writes.suffix (h : ws <:+ ws') (hk : Writes ws k) : Writes ws' k := by
  obtain ⟨early, rfl⟩ := h
  exact writes_append.2 (Or.inr hk)

end Replay
