import Mathlib.Logic.Equiv.Defs
import Variance.Lib.Protobuf

/-! Message types over the protobuf wire format, put together from their fields. A schema carries the proof that what
it encodes is decoded again, and that what is left of it by a cut between two fields is decoded to something. -/

namespace Protobuf
variable {α β : Type*}

/-- A type that fits into the value of one field. -/
structure Scalar (α : Type*) where
  toValue : α → Value
  ofValue : Value → Option α
  ofValue_toValue : ∀ a, ofValue (toValue a) = some a

namespace Scalar

def int64 : Scalar Int64 where
  toValue n := .varint n.toUInt64
  ofValue
    | .varint n => some n.toInt64
    | .bytes _ => none
  ofValue_toValue _ := rfl

def uint32 : Scalar UInt32 where
  toValue n := .varint n.toUInt64
  ofValue
    | .varint n => some n.toUInt32
    | .bytes _ => none
  ofValue_toValue n := by simp

/-- An enumeration as prost has it: any `i32`, sign-extended. -/
def enum : Scalar Int32 where
  toValue n := .varint n.toInt64.toUInt64
  ofValue
    | .varint n => some n.toInt64.toInt32
    | .bytes _ => none
  ofValue_toValue n := by simp

def bool : Scalar Bool where
  toValue b := .varint (if b then 1 else 0)
  ofValue
    | .varint n => some (n ≠ 0)
    | .bytes _ => none
  ofValue_toValue b := by cases b <;> rfl

def bytes : Scalar (List UInt8) where
  toValue := .bytes
  ofValue
    | .varint _ => none
    | .bytes b => some b
  ofValue_toValue _ := rfl

def string : Scalar String where
  toValue s := .bytes s.toByteArray.data.toList
  ofValue
    | .varint _ => none
    | .bytes b => String.fromUTF8? ⟨b.toArray⟩
  ofValue_toValue s := dif_pos s.isValidUTF8

end Scalar

structure Schema (α : Type*) where
  numbers : List ℕ
  default : α
  fields : α → List Field
  /-- Take in a field of one of the numbers. -/
  merge : α → Field → Option α
  fields_numbers : ∀ a, ∀ f ∈ fields a, f.number ∈ numbers
  merge_isSome : ∀ a, ∀ f ∈ fields a, ∀ x, (merge x f).isSome
  merge_fields : ∀ a, (fields a).foldlM merge default = some a

namespace Schema

def singular [DecidableEq α] (k : ℕ) (s : Scalar α) (d : α) : Schema α where
  numbers := [k]
  default := d
  fields a := if a = d then [] else [⟨k, s.toValue a⟩]
  merge _ f := s.ofValue f.value
  fields_numbers a f hf := by
    split_ifs at hf <;> simp_all
  merge_isSome a f hf x := by
    split_ifs at hf
    · cases hf
    · rw [List.mem_singleton.1 hf, s.ofValue_toValue]
      rfl
  merge_fields a := by
    split_ifs with h
    · rw [h]
      rfl
    · simp [s.ofValue_toValue]

def optional (k : ℕ) (s : Scalar α) : Schema (Option α) where
  numbers := [k]
  default := none
  fields
    | none => []
    | some a => [⟨k, s.toValue a⟩]
  merge _ f := (s.ofValue f.value).map some
  fields_numbers a f hf := by
    cases a <;> simp_all
  merge_isSome a f hf x := by
    cases a with
    | none => cases hf
    | some a =>
      rw [List.mem_singleton.1 hf, s.ofValue_toValue]
      rfl
  merge_fields a := by
    cases a <;> simp [s.ofValue_toValue]

theorem foldlM_append (s : Scalar α) (k : ℕ) (as xs : List α) :
    (as.map fun a => (⟨k, s.toValue a⟩ : Field)).foldlM (fun xs f => (s.ofValue f.value).map fun x => xs ++ [x]) xs =
      some (xs ++ as) := by
  induction as generalizing xs with
  | nil => simp
  | cons a as ih =>
    rw [List.map_cons, List.foldlM_cons, s.ofValue_toValue]
    simp [ih]

def repeated (k : ℕ) (s : Scalar α) : Schema (List α) where
  numbers := [k]
  default := []
  fields as := as.map fun a => ⟨k, s.toValue a⟩
  merge xs f := (s.ofValue f.value).map fun x => xs ++ [x]
  fields_numbers as f hf := by
    obtain ⟨a, -, rfl⟩ := List.mem_map.1 hf
    simp
  merge_isSome as f hf xs := by
    obtain ⟨a, -, rfl⟩ := List.mem_map.1 hf
    simp [s.ofValue_toValue]
  merge_fields as := foldlM_append s k as []

/-- A `oneof` of two fields. -/
def oneof (k l : ℕ) (s : Scalar α) (t : Scalar β) (hkl : l ≠ k := by decide) : Schema (Option (α ⊕ β)) where
  numbers := [k, l]
  default := none
  fields
    | none => []
    | some (.inl a) => [⟨k, s.toValue a⟩]
    | some (.inr b) => [⟨l, t.toValue b⟩]
  merge _ f := if f.number = k then (s.ofValue f.value).map fun a => some (.inl a)
    else (t.ofValue f.value).map fun b => some (.inr b)
  fields_numbers x f hf := by
    rcases x with _ | a | b <;> simp_all
  merge_isSome x f hf y := by
    rcases x with _ | a | b
    · cases hf
    · simp [List.mem_singleton.1 hf, s.ofValue_toValue]
    · simp [List.mem_singleton.1 hf, t.ofValue_toValue, hkl]
  merge_fields x := by
    rcases x with _ | a | b
    · rfl
    · simp [s.ofValue_toValue]
    · simp [t.ofValue_toValue, hkl]

section
variable (s : Schema α) (t : Schema β)

/-- A field goes to the part that has its number. -/
def mergeProd (x : α × β) (f : Field) : Option (α × β) :=
  if f.number ∈ s.numbers then (s.merge x.1 f).map fun a => (a, x.2) else (t.merge x.2 f).map fun b => (x.1, b)

variable {s t}

theorem foldlM_left {fs : List Field} (h : ∀ f ∈ fs, f.number ∈ s.numbers) (x : α × β) :
    fs.foldlM (mergeProd s t) x = (fs.foldlM s.merge x.1).map fun a => (a, x.2) := by
  induction fs generalizing x with
  | nil => rfl
  | cons f fs ih =>
    rw [List.foldlM_cons, List.foldlM_cons, mergeProd, if_pos (h f List.mem_cons_self)]
    cases s.merge x.1 f with
    | none => rfl
    | some a => exact ih (fun g hg => h g (List.mem_cons_of_mem f hg)) (a, x.2)

theorem foldlM_right {fs : List Field} (h : ∀ f ∈ fs, f.number ∉ s.numbers) (x : α × β) :
    fs.foldlM (mergeProd s t) x = (fs.foldlM t.merge x.2).map fun b => (x.1, b) := by
  induction fs generalizing x with
  | nil => rfl
  | cons f fs ih =>
    rw [List.foldlM_cons, List.foldlM_cons, mergeProd, if_neg (h f List.mem_cons_self)]
    cases t.merge x.2 f with
    | none => rfl
    | some b => exact ih (fun g hg => h g (List.mem_cons_of_mem f hg)) (x.1, b)

variable (s t)

def prod (h : ∀ n ∈ t.numbers, n ∉ s.numbers := by decide) : Schema (α × β) where
  numbers := s.numbers ++ t.numbers
  default := (s.default, t.default)
  fields x := s.fields x.1 ++ t.fields x.2
  merge := mergeProd s t
  fields_numbers x f hf := by
    rcases List.mem_append.1 hf with hf | hf
    · exact List.mem_append_left _ (s.fields_numbers x.1 f hf)
    · exact List.mem_append_right _ (t.fields_numbers x.2 f hf)
  merge_isSome x f hf y := by
    rcases List.mem_append.1 hf with hf | hf
    · rw [mergeProd, if_pos (s.fields_numbers x.1 f hf), Option.isSome_map]
      exact s.merge_isSome x.1 f hf y.1
    · rw [mergeProd, if_neg (h _ (t.fields_numbers x.2 f hf)), Option.isSome_map]
      exact t.merge_isSome x.2 f hf y.2
  merge_fields x := by
    rw [List.foldlM_append, foldlM_left (s.fields_numbers x.1), s.merge_fields x.1]
    refine (foldlM_right (fun f hf => h _ (t.fields_numbers x.2 f hf)) _).trans ?_
    rw [t.merge_fields x.2]
    rfl

theorem foldlM_map (e : α ≃ β) (fs : List Field) (a : α) :
    fs.foldlM (fun b f => (s.merge (e.symm b) f).map e) (e a) = (fs.foldlM s.merge a).map e := by
  induction fs generalizing a with
  | nil => rfl
  | cons f fs ih =>
    rw [List.foldlM_cons, List.foldlM_cons, e.symm_apply_apply]
    cases s.merge a f with
    | none => rfl
    | some a => exact ih a

/-- The same fields for a type that they make up. -/
def map (e : α ≃ β) : Schema β where
  numbers := s.numbers
  default := e s.default
  fields b := s.fields (e.symm b)
  merge b f := (s.merge (e.symm b) f).map e
  fields_numbers b := s.fields_numbers (e.symm b)
  merge_isSome b f hf x := by
    rw [Option.isSome_map]
    exact s.merge_isSome (e.symm b) f hf (e.symm x)
  merge_fields b := by
    rw [foldlM_map, s.merge_fields, Option.map_some, e.apply_symm_apply]

end

/-! Whole messages -/

variable (s : Schema α)

def encode (a : α) : List UInt8 := encodeFields (s.fields a)

/-- A field of no known number is passed over. -/
def mergeField (a : α) (f : Field) : Option α := if f.number ∈ s.numbers then s.merge a f else some a

def decode (bs : List UInt8) : Option α := (readFields bs).bind fun fs => fs.foldlM s.mergeField s.default

variable {s}

theorem foldlM_mergeField {fs : List Field} (h : ∀ f ∈ fs, f.number ∈ s.numbers) (a : α) :
    fs.foldlM s.mergeField a = fs.foldlM s.merge a := by
  induction fs generalizing a with
  | nil => rfl
  | cons f fs ih =>
    rw [List.foldlM_cons, List.foldlM_cons, mergeField, if_pos (h f List.mem_cons_self)]
    cases s.merge a f with
    | none => rfl
    | some a => exact ih (fun g hg => h g (List.mem_cons_of_mem f hg)) a

theorem foldlM_isSome {fs : List Field} (h : ∀ f ∈ fs, ∀ x, (s.merge x f).isSome) (a : α) :
    (fs.foldlM s.merge a).isSome := by
  induction fs generalizing a with
  | nil => rfl
  | cons f fs ih =>
    obtain ⟨x, hx⟩ := Option.isSome_iff_exists.1 (h f List.mem_cons_self a)
    rw [List.foldlM_cons, hx]
    exact ih (fun g hg => h g (List.mem_cons_of_mem f hg)) x

theorem decode_encode (a : α) : s.decode (s.encode a) = some a := by
  rw [decode, encode, readFields_encodeFields, Option.bind_some, foldlM_mergeField (s.fields_numbers a),
    s.merge_fields a]

theorem decode_cut (a : α) (k : ℕ) : (s.decode (encodeFields ((s.fields a).take k))).isSome := by
  have hmem : ∀ f ∈ (s.fields a).take k, f ∈ s.fields a := fun f hf => List.mem_of_mem_take hf
  rw [decode, readFields_encodeFields, Option.bind_some,
    foldlM_mergeField fun f hf => s.fields_numbers a f (hmem f hf)]
  exact foldlM_isSome (fun f hf => s.merge_isSome a f (hmem f hf)) s.default

theorem decode_torn {fs : List Field} {t : List UInt8} (hne : t ≠ []) (ht : readField t = none) :
    s.decode (encodeFields fs ++ t) = none := by
  rw [decode, readFields_torn hne ht]
  rfl

/-- A message as the value of a field. -/
def scalar (s : Schema α) : Scalar α where
  toValue a := .bytes (s.encode a)
  ofValue
    | .varint _ => none
    | .bytes b => s.decode b
  ofValue_toValue := decode_encode

end Schema
end Protobuf
