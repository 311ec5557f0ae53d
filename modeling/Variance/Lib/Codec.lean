import Mathlib.Data.List.Basic
import Mathlib.Data.String.Basic
import Mathlib.Tactic.Common
import Mathlib.Data.Int.Basic

/-! Self-delimiting codes into bytes, put together from smaller ones. A code carries the
proof that decoding undoes encoding, whatever bytes follow. -/

structure Codec (α : Type*) where
  enc : α → List UInt8
  dec : List UInt8 → Option (α × List UInt8)
  dec_enc : ∀ a r, dec (enc a ++ r) = some (a, r)

namespace Codec
variable {α β : Type*}

/-- The whole input, with nothing left over. -/
def decode (c : Codec α) (b : List UInt8) : Option α :=
  match c.dec b with
  | some (a, []) => some a
  | _ => none

@[simp] theorem decode_enc (c : Codec α) (a : α) : c.decode (c.enc a) = some a := by
  have h := c.dec_enc a []
  rw [List.append_nil] at h
  simp [decode, h]

/-- No code word begins another. -/
theorem eq_of_prefix (c : Codec α) {a b : α} (h : c.enc a <+: c.enc b) : a = b := by
  obtain ⟨r, hr⟩ := h
  have hb := c.dec_enc b []
  rw [List.append_nil, ← hr, c.dec_enc] at hb
  exact (Prod.mk.inj (Option.some.inj hb)).1

private def natEnc : ℕ → List UInt8
  | 0 => [0]
  | n + 1 => 1 :: natEnc n

private def natDec : List UInt8 → Option (ℕ × List UInt8)
  | [] => none
  | b :: r => if b = 0 then some (0, r) else (natDec r).map fun p => (p.1 + 1, p.2)

/-- A number in unary. -/
def nat : Codec ℕ where
  enc := natEnc
  dec := natDec
  dec_enc n r := by
    induction n with
    | zero => simp [natEnc, natDec]
    | succ n ih => simp [natEnc, natDec, ih]

def byte : Codec UInt8 where
  enc b := [b]
  dec
    | [] => none
    | b :: r => some (b, r)
  dec_enc _ _ := rfl

def prod (c : Codec α) (d : Codec β) : Codec (α × β) where
  enc p := c.enc p.1 ++ d.enc p.2
  dec b := (c.dec b).bind fun p => (d.dec p.2).map fun q => ((p.1, q.1), q.2)
  dec_enc p r := by simp [c.dec_enc, d.dec_enc]

/-- Along a function with a left inverse. -/
def map (c : Codec α) (f : β → α) (g : α → β) (h : ∀ b, g (f b) = b) : Codec β where
  enc b := c.enc (f b)
  dec b := (c.dec b).map fun p => (g p.1, p.2)
  dec_enc b r := by simp [c.dec_enc, h]

def sum (c : Codec α) (d : Codec β) : Codec (α ⊕ β) where
  enc
    | .inl a => 0 :: c.enc a
    | .inr b => 1 :: d.enc b
  dec
    | [] => none
    | t :: r =>
      if t = 0 then (c.dec r).map fun p => (.inl p.1, p.2) else (d.dec r).map fun p => (.inr p.1, p.2)
  dec_enc x r := by cases x <;> simp [c.dec_enc, d.dec_enc]

private def repeatDec (c : Codec α) : ℕ → List UInt8 → Option (List α × List UInt8)
  | 0, r => some ([], r)
  | n + 1, r => (c.dec r).bind fun p => (repeatDec c n p.2).map fun q => (p.1 :: q.1, q.2)

private theorem repeatDec_enc (c : Codec α) (l : List α) (r : List UInt8) :
    repeatDec c l.length ((l.flatMap c.enc) ++ r) = some (l, r) := by
  induction l with
  | nil => rfl
  | cons a l ih => simp [repeatDec, c.dec_enc, ih]

/-- The length, then the entries. -/
def list (c : Codec α) : Codec (List α) where
  enc l := nat.enc l.length ++ l.flatMap c.enc
  dec b := (nat.dec b).bind fun p => repeatDec c p.1 p.2
  dec_enc l r := by
    rw [List.append_assoc, nat.dec_enc]
    exact repeatDec_enc c l r

def unit : Codec Unit where
  enc _ := []
  dec b := some ((), b)
  dec_enc _ _ := rfl

def option (c : Codec α) : Codec (Option α) :=
  (sum unit c).map (fun o => o.elim (.inl ()) .inr) (fun s => s.elim (fun _ => none) some)
    fun o => by cases o <;> rfl

def bool : Codec Bool := (sum unit unit).map (fun b => if b then .inr () else .inl ()) Sum.isRight
  fun b => by cases b <;> rfl

def int : Codec ℤ := (prod bool nat).map (fun z => (decide (z < 0), z.natAbs))
  (fun p => if p.1 then -(p.2 : ℤ) else p.2)
  fun z => by
    by_cases h : z < 0
    · simp [h, Int.ofNat_natAbs_of_nonpos h.le]
    · simp [h, Int.natAbs_of_nonneg (not_lt.1 h)]

/-- A small code point as it is, any other as an escape and three bytes. -/
def char : Codec Char where
  enc c := if c.toNat < 255 then [UInt8.ofNat c.toNat] else
    [255, UInt8.ofNat (c.toNat / 65536), UInt8.ofNat (c.toNat / 256), UInt8.ofNat c.toNat]
  dec
    | [] => none
    | b :: r => if b ≠ 255 then some (Char.ofNat b.toNat, r) else
      match r with
      | x :: y :: z :: r => some (Char.ofNat (x.toNat * 65536 + y.toNat * 256 + z.toNat), r)
      | _ => none
  dec_enc c r := by
    have hc : c.toNat < 1114112 := by
      have hv : c.toNat < 55296 ∨ (57343 < c.toNat ∧ c.toNat < 1114112) := c.valid
      omega
    by_cases h : c.toNat < 255
    · have hne : UInt8.ofNat c.toNat ≠ 255 := by
        intro heq
        have := congrArg UInt8.toNat heq
        simp at this
        omega
      have hmod : c.toNat % 256 = c.toNat := by omega
      simp [h, hne, hmod]
    · have heq : c.toNat / 65536 % 256 * 65536 + c.toNat / 256 % 256 * 256 + c.toNat % 256 = c.toNat := by
        omega
      simp [h, heq]

def string : Codec String := (list char).map String.toList String.ofList fun s => by simp

end Codec
