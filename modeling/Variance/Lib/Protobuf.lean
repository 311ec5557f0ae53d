import Mathlib.Algebra.GroupWithZero.Nat
import Mathlib.Data.List.Basic
import Mathlib.Data.List.TakeDrop
import Mathlib.Tactic.Common

/-! The protobuf wire format, of its wire types the two that scalars, texts and nested messages use. A message is its
fields, one after the other, with nothing around them: cut between two fields it is a message again, and cut anywhere
else it is not read. -/

namespace Protobuf

/-! Varints -/

/-- Seven bits a byte, the lowest first; the high bit of a byte says that more follow. -/
def varint (n : ℕ) : List UInt8 :=
  if n < 128 then [UInt8.ofNat n] else UInt8.ofNat (n % 128 + 128) :: varint (n / 128)

def readVarint : List UInt8 → Option (ℕ × List UInt8)
  | [] => none
  | b :: bs =>
    if b.toNat < 128 then some (b.toNat, bs)
    else (readVarint bs).map fun p => (p.1 * 128 + (b.toNat - 128), p.2)

theorem varint_small {n : ℕ} (h : n < 128) : varint n = [UInt8.ofNat n] := by
  rw [varint, if_pos h]

theorem varint_large {n : ℕ} (h : ¬ n < 128) : varint n = UInt8.ofNat (n % 128 + 128) :: varint (n / 128) := by
  rw [varint, if_neg h]

theorem varint_ne_nil (n : ℕ) : varint n ≠ [] := by
  rw [varint]
  split_ifs <;> simp

theorem readVarint_varint (n : ℕ) (r : List UInt8) : readVarint (varint n ++ r) = some (n, r) := by
  induction n using varint.induct with
  | case1 n h =>
    have hb : (UInt8.ofNat n).toNat = n := by
      rw [UInt8.toNat_ofNat']
      omega
    rw [varint_small h, List.singleton_append, readVarint, hb, if_pos h]
  | case2 n h ih =>
    have hb : (UInt8.ofNat (n % 128 + 128)).toNat = n % 128 + 128 := by
      rw [UInt8.toNat_ofNat']
      omega
    have hn : n / 128 * 128 + (n % 128 + 128 - 128) = n := by omega
    rw [varint_large h, List.cons_append, readVarint, hb, if_neg (by omega), ih, Option.map_some, hn]

/-- A varint that stops short is not read. -/
theorem readVarint_torn {n : ℕ} {t : List UInt8} (h : t <+: varint n) (hne : t ≠ varint n) : readVarint t = none := by
  induction n using varint.induct generalizing t with
  | case1 n hn =>
    rw [varint_small hn] at h hne
    cases t with
    | nil => rfl
    | cons b t =>
      rw [List.cons_prefix_cons] at h
      exact absurd (by rw [h.1, List.prefix_nil.1 h.2]) hne
  | case2 n hn ih =>
    rw [varint_large hn] at h hne
    cases t with
    | nil => rfl
    | cons b t =>
      obtain ⟨rfl, ht⟩ := List.cons_prefix_cons.1 h
      have hb : (UInt8.ofNat (n % 128 + 128)).toNat = n % 128 + 128 := by
        rw [UInt8.toNat_ofNat']
        omega
      rw [readVarint, hb, if_neg (by omega), ih ht fun heq => hne (by rw [heq])]
      rfl

/-! Fields -/

inductive Value
  | varint (n : UInt64)
  | bytes (b : List UInt8)
deriving DecidableEq

structure Field where
  number : ℕ
  value : Value
deriving DecidableEq

def Field.encode (f : Field) : List UInt8 :=
  match f.value with
  | .varint n => Protobuf.varint (8 * f.number) ++ Protobuf.varint n.toNat
  | .bytes b => Protobuf.varint (8 * f.number + 2) ++ (Protobuf.varint b.length ++ b)

def readField (bs : List UInt8) : Option (Field × List UInt8) :=
  match readVarint bs with
  | none => none
  | some (key, bs) =>
    match key % 8, readVarint bs with
    | 0, some (n, bs) => if n < 2 ^ 64 then some (⟨key / 8, .varint (.ofNat n)⟩, bs) else none
    | 2, some (n, bs) => if n ≤ bs.length then some (⟨key / 8, .bytes (bs.take n)⟩, bs.drop n) else none
    | _, _ => none

theorem Field.encode_ne_nil (f : Field) : f.encode ≠ [] := by
  obtain ⟨k, n | b⟩ := f <;> simp [encode, varint_ne_nil]

/-- A field with a number below 16 has a key of one byte. -/
theorem length_encode_bytes {k : ℕ} (hk : k < 16) (b : List UInt8) :
    (Field.encode ⟨k, .bytes b⟩).length = 1 + (varint b.length).length + b.length := by
  simp only [Field.encode, List.length_append, varint_small (show 8 * k + 2 < 128 by omega), List.length_singleton]
  omega

theorem length_encode_varint {k : ℕ} (hk : k < 16) (n : UInt64) :
    (Field.encode ⟨k, .varint n⟩).length = 1 + (varint n.toNat).length := by
  simp only [Field.encode, List.length_append, varint_small (show 8 * k < 128 by omega), List.length_singleton]

theorem readField_encode (f : Field) (r : List UInt8) : readField (f.encode ++ r) = some (f, r) := by
  obtain ⟨k, n | b⟩ := f
  · have hmod : 8 * k % 8 = 0 := by omega
    have hdiv : 8 * k / 8 = k := by omega
    simp only [Field.encode, readField, List.append_assoc, readVarint_varint, hmod, hdiv]
    simp [n.toNat_lt]
  · have hmod : (8 * k + 2) % 8 = 2 := by omega
    have hdiv : (8 * k + 2) / 8 = k := by omega
    simp only [Field.encode, readField, List.append_assoc, readVarint_varint, hmod, hdiv]
    simp

/-- What stops short of two parts stops short of the first, or of the second. -/
theorem torn_append {t a b : List UInt8} (h : t <+: a ++ b) (hne : t ≠ a ++ b) :
    (t <+: a ∧ t ≠ a) ∨ ∃ t', t = a ++ t' ∧ t' <+: b ∧ t' ≠ b := by
  rcases List.prefix_or_prefix_of_prefix h (List.prefix_append a b) with hta | ⟨t', rfl⟩
  · by_cases hta' : t = a
    · subst hta'
      refine Or.inr ⟨[], by simp, List.nil_prefix, ?_⟩
      rintro rfl
      simp at hne
    · exact Or.inl ⟨hta, hta'⟩
  · refine Or.inr ⟨t', rfl, (List.prefix_append_right_inj a).1 h, ?_⟩
    rintro rfl
    exact hne rfl

theorem readField_torn {f : Field} {t : List UInt8} (h : t <+: f.encode) (hne : t ≠ f.encode) : readField t = none := by
  obtain ⟨k, n | b⟩ := f
  · simp only [Field.encode] at h hne
    rcases torn_append h hne with ⟨ht, hne'⟩ | ⟨t', rfl, ht, hne'⟩
    · simp [readField, readVarint_torn ht hne']
    · simp [readField, readVarint_varint, readVarint_torn ht hne']
  · simp only [Field.encode] at h hne
    rcases torn_append h hne with ⟨ht, hne'⟩ | ⟨t', rfl, ht, hne'⟩
    · simp [readField, readVarint_torn ht hne']
    · rcases torn_append ht hne' with ⟨ht, hne'⟩ | ⟨b', rfl, hb, hne'⟩
      · simp [readField, readVarint_varint, readVarint_torn ht hne']
      · -- fewer bytes are left than the length says
        have hlt : ¬ b.length ≤ b'.length := fun hle => hne' (hb.eq_of_length_le hle)
        have hmod : (8 * k + 2) % 8 = 2 := by omega
        simp only [readField, readVarint_varint, hmod, if_neg hlt]

/-! Messages as fields -/

def encodeFields (fs : List Field) : List UInt8 := fs.flatMap Field.encode

def readFieldsFrom : ℕ → List UInt8 → Option (List Field)
  | _, [] => some []
  | 0, _ :: _ => none
  | fuel + 1, b :: bs =>
    match readField (b :: bs) with
    | none => none
    | some (f, bs) => (readFieldsFrom fuel bs).map (f :: ·)

def readFields (bs : List UInt8) : Option (List Field) := readFieldsFrom bs.length bs

@[simp] theorem encodeFields_nil : encodeFields [] = [] := rfl

@[simp] theorem encodeFields_cons (f : Field) (fs : List Field) :
    encodeFields (f :: fs) = f.encode ++ encodeFields fs := rfl

theorem encodeFields_append (fs gs : List Field) : encodeFields (fs ++ gs) = encodeFields fs ++ encodeFields gs :=
  List.flatMap_append

theorem length_encodeFields (fs : List Field) :
    (encodeFields fs).length = (fs.map fun f => f.encode.length).sum := List.length_flatMap

theorem length_encode_le {f : Field} {fs : List Field} (h : f ∈ fs) : f.encode.length ≤ (encodeFields fs).length := by
  obtain ⟨before, after, rfl⟩ := List.append_of_mem h
  rw [encodeFields_append, encodeFields_cons, List.length_append, List.length_append]
  omega

theorem length_le_encodeFields (fs : List Field) : fs.length ≤ (encodeFields fs).length := by
  induction fs with
  | nil => exact Nat.le_refl _
  | cons f fs ih =>
    have hpos := List.length_pos_of_ne_nil f.encode_ne_nil
    rw [encodeFields_cons, List.length_append, List.length_cons]
    omega

theorem readFieldsFrom_cons {f : Field} {bs r : List UInt8} (h : readField bs = some (f, r)) (fuel : ℕ) :
    readFieldsFrom (fuel + 1) bs = (readFieldsFrom fuel r).map (f :: ·) := by
  cases bs with
  | nil => simp [readField, readVarint] at h
  | cons b bs => rw [readFieldsFrom, h]

theorem readFieldsFrom_encodeFields (fs : List Field) (fuel : ℕ) (t : List UInt8) :
    readFieldsFrom (fs.length + fuel) (encodeFields fs ++ t) = (readFieldsFrom fuel t).map (fs ++ ·) := by
  induction fs with
  | nil => simp
  | cons f fs ih =>
    have hlen : (f :: fs).length + fuel = (fs.length + fuel) + 1 := by
      rw [List.length_cons]
      omega
    rw [hlen, encodeFields_cons, List.append_assoc, readFieldsFrom_cons (readField_encode f _), ih, Option.map_map]
    rfl

theorem readFields_encodeFields (fs : List Field) : readFields (encodeFields fs) = some fs := by
  obtain ⟨fuel, hfuel⟩ := Nat.exists_eq_add_of_le (length_le_encodeFields fs)
  have h := readFieldsFrom_encodeFields fs fuel []
  rw [List.append_nil] at h
  rw [readFields, hfuel, h]
  simp [readFieldsFrom]

/-- What follows the last field and does not read as one spoils the message. -/
theorem readFields_torn {fs : List Field} {t : List UInt8} (hne : t ≠ []) (ht : readField t = none) :
    readFields (encodeFields fs ++ t) = none := by
  obtain ⟨fuel, hfuel⟩ := Nat.exists_eq_add_of_le (length_le_encodeFields fs)
  have hlen : (encodeFields fs ++ t).length = fs.length + (fuel + t.length) := by
    rw [List.length_append]
    omega
  rw [readFields, hlen, readFieldsFrom_encodeFields]
  cases t with
  | nil => exact absurd rfl hne
  | cons b bs =>
    rw [List.length_cons, ← Nat.add_assoc, readFieldsFrom, ht]
    rfl

/-- Where fields are cut: between two of them, or inside one. -/
theorem take_encodeFields (fs : List Field) (n : ℕ) (h : n ≤ (encodeFields fs).length) :
    (∃ k, (encodeFields fs).take n = encodeFields (fs.take k) ∧ (encodeFields (fs.take k)).length = n) ∨
    ∃ k t, (encodeFields fs).take n = encodeFields (fs.take k) ++ t ∧ t ≠ [] ∧ readField t = none := by
  induction fs generalizing n with
  | nil =>
    have hn : n = 0 := by simpa using h
    subst hn
    exact Or.inl ⟨0, rfl, rfl⟩
  | cons f fs ih =>
    rw [encodeFields_cons] at h ⊢
    by_cases hn : n < f.encode.length
    · rw [List.take_append_of_le_length (by omega)]
      by_cases h0 : n = 0
      · subst h0
        exact Or.inl ⟨0, rfl, rfl⟩
      · refine Or.inr ⟨0, f.encode.take n, rfl, fun heq => ?_, readField_torn (List.take_prefix _ _) fun heq => ?_⟩
        · have := congrArg List.length heq
          rw [List.length_take, List.length_nil] at this
          omega
        · have := congrArg List.length heq
          rw [List.length_take] at this
          omega
    · rw [List.length_append] at h
      obtain ⟨m, rfl⟩ := Nat.exists_eq_add_of_le (Nat.le_of_not_lt hn)
      rw [List.take_length_add_append]
      rcases ih m (by omega) with ⟨k, hk, hlen⟩ | ⟨k, t, hk, ht⟩
      · refine Or.inl ⟨k + 1, ?_, ?_⟩
        · rw [hk, List.take_succ_cons, encodeFields_cons]
        · rw [List.take_succ_cons, encodeFields_cons, List.length_append, hlen]
      · refine Or.inr ⟨k + 1, t, ?_, ht⟩
        rw [hk, List.take_succ_cons, encodeFields_cons, List.append_assoc]

end Protobuf
