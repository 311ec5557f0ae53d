import Mathlib.Algebra.GroupWithZero.Nat
import Mathlib.Algebra.Order.Group.Unbundled.Int
import Mathlib.Algebra.Ring.Int.Defs
import Mathlib.Tactic.Common

/-! Arithmetic on 64-bit signed integers whose exact result may not fit: a debug build stops there, a release build
keeps the low bits. -/

namespace Overflow

inductive Build
  | debug
  | release
deriving DecidableEq

/-- The exact number is one that 64 bits hold. -/
def Fits (z : ℤ) : Prop := -2 ^ 63 ≤ z ∧ z < 2 ^ 63

instance (z : ℤ) : Decidable (Fits z) := by unfold Fits; infer_instance

/-- What an operation gives whose exact result is `z`. -/
def result (b : Build) (z : ℤ) : Option Int64 :=
  if Fits z then some (Int64.ofInt z)
  else match b with
    | .debug => none
    | .release => some (Int64.ofInt z)

def sub (b : Build) (x y : Int64) : Option Int64 := result b (x.toInt - y.toInt)

def add (b : Build) (x y : Int64) : Option Int64 := result b (x.toInt + y.toInt)

def abs (b : Build) (x : Int64) : Option Int64 := result b |x.toInt|

/-- `(x - y).abs()`. -/
def distance (b : Build) (x y : Int64) : Option Int64 := (sub b x y).bind (abs b)

variable {b : Build} {x y : Int64} {z : ℤ}

theorem toInt_ofInt (h : Fits z) : (Int64.ofInt z).toInt = z := Int64.toInt_ofInt_of_le h.1 h.2

theorem result_fits (h : Fits z) : result b z = some (Int64.ofInt z) := if_pos h

theorem result_debug (h : ¬ Fits z) : result .debug z = none := if_neg h

@[simp] theorem result_release : result .release z = some (Int64.ofInt z) := by
  unfold result
  split_ifs <;> rfl

/-- Short of the whole range on either side the distance is exact, in both builds. -/
theorem distance_exact (h : |x.toInt - y.toInt| < 2 ^ 63) :
    distance b x y = some (Int64.ofInt |x.toInt - y.toInt|) := by
  have hsub : Fits (x.toInt - y.toInt) := ⟨by have := abs_lt.mp h; omega, (abs_lt.mp h).2⟩
  have habs : Fits |x.toInt - y.toInt| := ⟨by have := abs_nonneg (x.toInt - y.toInt); omega, h⟩
  rw [distance, sub, result_fits hsub, Option.bind_some, abs, toInt_ofInt hsub, result_fits habs]

/-- Beyond that a debug build stops. -/
theorem distance_debug (h : 2 ^ 63 ≤ |x.toInt - y.toInt|) : distance .debug x y = none := by
  by_cases hsub : Fits (x.toInt - y.toInt)
  · have habs : ¬ Fits |x.toInt - y.toInt| := fun h' => absurd h'.2 (not_lt.mpr h)
    rw [distance, sub, result_fits hsub, Option.bind_some, abs, toInt_ofInt hsub, result_debug habs]
  · rw [distance, sub, result_debug hsub, Option.bind_none]

/-- And a release build takes the distance modulo the whole range. -/
theorem distance_release : distance .release x y = some (Int64.ofInt |(x.toInt - y.toInt).bmod (2 ^ 64)|) := by
  rw [distance, sub, result_release, Option.bind_some, abs, result_release, Int64.toInt_ofInt]
  rfl

end Overflow
