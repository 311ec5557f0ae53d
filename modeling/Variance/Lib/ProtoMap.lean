import Variance.Lib.ProtoSchema

/-! Map fields. A hash map is the list of its entries in the order in which it is walked, which nothing else depends
on: two maps with the same entries may be walked in different orders. -/

namespace Protobuf
variable {α β : Type*}

structure EntryMap (α β : Type*) where
  entries : List (α × β)
  nodup : (entries.map Prod.fst).Nodup

namespace EntryMap

def empty : EntryMap α β := ⟨[], List.nodup_nil⟩

/-- The same map, walked in any order. -/
def Same (m m' : EntryMap α β) : Prop := m.entries.Perm m'.entries

theorem ext_entries {m m' : EntryMap α β} (h : m.entries = m'.entries) : m = m' := by
  cases m
  cases m'
  cases h
  rfl

theorem Same.refl (m : EntryMap α β) : m.Same m := List.Perm.refl _

theorem Same.trans {m m' m'' : EntryMap α β} (h : m.Same m') (h' : m'.Same m'') : m.Same m'' := List.Perm.trans h h'

/-- A map of one entry is walked in one order. -/
theorem Same.eq_of_length_le_one {m m' : EntryMap α β} (h : m.Same m') (hm : m.entries.length ≤ 1) : m' = m := by
  refine ext_entries ?_
  rcases hl : m.entries with _ | ⟨e, _ | ⟨e', rest⟩⟩
  · have hperm : [].Perm m'.entries := hl ▸ h
    exact List.nil_perm.1 hperm
  · have hperm : [e].Perm m'.entries := hl ▸ h
    exact List.perm_singleton.1 hperm.symm
  · rw [hl] at hm
    simp at hm

/-- A map of more entries can be walked in another. -/
theorem exists_same_ne {m : EntryMap α β} (hm : 1 < m.entries.length) : ∃ m' : EntryMap α β, m.Same m' ∧ m' ≠ m := by
  rcases hl : m.entries with _ | ⟨e, _ | ⟨e', rest⟩⟩
  · rw [hl] at hm
    simp at hm
  · rw [hl] at hm
    simp at hm
  · have hperm : m.entries.Perm (e' :: e :: rest) := hl ▸ List.Perm.swap e' e rest
    have hnodup : ((e' :: e :: rest).map Prod.fst).Nodup := ((hperm.map Prod.fst).nodup_iff).1 m.nodup
    refine ⟨⟨e' :: e :: rest, hnodup⟩, hperm, fun heq => ?_⟩
    have hentries : e' :: e :: rest = e :: e' :: rest := by rw [← hl, ← heq]
    have hsame : e' = e := List.head_eq_of_cons_eq hentries
    rw [hsame] at hnodup
    simp at hnodup

variable [DecidableEq α]

/-- The key's value is replaced, or there is one entry more. -/
def insert (m : EntryMap α β) (e : α × β) : EntryMap α β :=
  if h : e.1 ∈ m.entries.map Prod.fst then
    { entries := m.entries.map fun x => if x.1 = e.1 then e else x
      nodup := by
        have hkeys : (m.entries.map fun x => if x.1 = e.1 then e else x).map Prod.fst = m.entries.map Prod.fst := by
          rw [List.map_map]
          refine List.map_congr_left fun x _ => ?_
          show (if x.1 = e.1 then e else x).1 = x.1
          split_ifs with hx
          · exact hx.symm
          · rfl
        rw [hkeys]
        exact m.nodup }
  else
    { entries := m.entries ++ [e]
      nodup := by
        rw [List.map_append, List.nodup_append]
        refine ⟨m.nodup, by simp, fun k hk k' hk' heq => ?_⟩
        rw [List.mem_singleton.1 hk'] at heq
        exact h (heq ▸ hk) }

theorem insert_new {m : EntryMap α β} {e : α × β} (h : e.1 ∉ m.entries.map Prod.fst) :
    (m.insert e).entries = m.entries ++ [e] := by
  unfold insert
  rw [dif_neg h]

end EntryMap

namespace Schema

/-- Different values have different encodings. -/
theorem encode_inj {s : Schema α} {a b : α} : s.encode a = s.encode b ↔ a = b := by
  refine ⟨fun h => ?_, congrArg s.encode⟩
  have hback : s.decode (s.encode a) = some a := decode_encode a
  rw [h, decode_encode] at hback
  exact (Option.some.inj hback).symm

variable [DecidableEq α]

theorem foldlM_insert (s : Scalar (α × β)) (k : ℕ) (es : List (α × β)) (m : EntryMap α β)
    (h : ((m.entries ++ es).map Prod.fst).Nodup) :
    (es.map fun e => (⟨k, s.toValue e⟩ : Field)).foldlM (fun m f => (s.ofValue f.value).map m.insert) m =
      some ⟨m.entries ++ es, h⟩ := by
  induction es generalizing m with
  | nil =>
    rw [List.map_nil, List.foldlM_nil]
    exact congrArg some (EntryMap.ext_entries (List.append_nil _).symm)
  | cons e es ih =>
    have hnew : e.1 ∉ m.entries.map Prod.fst := by
      rw [List.map_append, List.nodup_append] at h
      exact fun hmem => h.2.2 e.1 hmem e.1 (by simp) rfl
    have hentries : (m.insert e).entries = m.entries ++ [e] := EntryMap.insert_new hnew
    have hstep : (m.insert e).entries ++ es = m.entries ++ e :: es := by
      rw [hentries, List.append_assoc, List.singleton_append]
    rw [List.map_cons, List.foldlM_cons, s.ofValue_toValue]
    refine (ih (m.insert e) (by rw [hstep]; exact h)).trans ?_
    exact congrArg some (EntryMap.ext_entries hstep)

/-- A `map`: a message of a key and a value for each entry, in the order in which the map is walked. -/
def entries (k : ℕ) (s : Scalar (α × β)) : Schema (EntryMap α β) where
  numbers := [k]
  default := EntryMap.empty
  fields m := m.entries.map fun e => ⟨k, s.toValue e⟩
  merge m f := (s.ofValue f.value).map m.insert
  fields_numbers m f hf := by
    obtain ⟨e, -, rfl⟩ := List.mem_map.1 hf
    simp
  merge_isSome m f hf x := by
    obtain ⟨e, -, rfl⟩ := List.mem_map.1 hf
    simp [s.ofValue_toValue]
  merge_fields m := foldlM_insert s k m.entries EntryMap.empty m.nodup

end Schema
end Protobuf
