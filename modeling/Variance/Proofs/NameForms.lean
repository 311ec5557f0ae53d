import Variance.Lib.InsertionMap
import Variance.Sanity.Names

/-! Names as text: as they are shown and typed, and as they are kept for peers. -/

namespace Variance
namespace NameForms

open UsernameRegistry

variable {U : Unicode} {s t name a b : String} {disc : UInt32} {digits : List Char}

/-! Reading -/

/-- `formatted.strip_prefix('@').unwrap_or(formatted)`. -/
def stripAt (s : String) : String :=
  match s.toList with
  | '@' :: l => String.ofList l
  | l => String.ofList l

theorem parseUsername_eq : parseUsername s = (Text.rsplitOnce '#' (stripAt s)).bind fun p =>
    (Text.parseU32 p.2).bind fun disc =>
      if minDiscriminator ≤ disc ∧ disc ≤ maxDiscriminator then some (p.1, disc) else none := by
  unfold parseUsername stripAt
  dsimp only
  cases Text.rsplitOnce '#' _ with
  | none => rfl
  | some p =>
    dsimp only [Option.bind_some]
    cases Text.parseU32 p.2 with
    | none => rfl
    | some disc => rfl

theorem stripAt_mark (s : String) : ∃ mark, (mark = "" ∨ mark = "@") ∧ s = mark ++ stripAt s := by
  unfold stripAt
  split
  · rename_i l hl
    refine ⟨"@", Or.inr rfl, ?_⟩
    rw [← String.toList_inj]
    simp [String.toList_append, hl]
  · refine ⟨"", Or.inl rfl, ?_⟩
    simp

theorem stripAt_of_head (h : s.toList.head? ≠ some '@') : stripAt s = s := by
  unfold stripAt
  split
  · rename_i l hl
    rw [hl] at h
    exact (h rfl).elim
  · simp

theorem stripAt_append : stripAt (a ++ String.singleton '#' ++ b) = stripAt a ++ String.singleton '#' ++ b := by
  by_cases h : a.toList.head? = some '@'
  · obtain ⟨l, hl⟩ := List.head?_eq_some_iff.1 h
    have hs : (a ++ String.singleton '#' ++ b).toList = '@' :: (l ++ '#' :: b.toList) := by
      simp [String.toList_append, hl]
    unfold stripAt
    rw [hs, hl]
    simp [← String.toList_inj, String.toList_append]
  · rw [stripAt_of_head h, stripAt_of_head]
    rw [String.toList_append, String.toList_append, List.append_assoc]
    cases ha : a.toList with
    | nil => simp
    | cons c l =>
      rw [ha] at h
      exact h

/-- Digits, perhaps with a plus before them. -/
theorem parseU32_some (h : Text.parseU32 s = some disc) : ∃ digits, (s.toList = digits ∨ s.toList = '+' :: digits) ∧
    digits ≠ [] ∧ (∀ c ∈ digits, c.isDigit = true) ∧ Nat.ofDigitChars 10 digits 0 = disc.toNat := by
  unfold Text.parseU32 at h
  dsimp only at h
  rw [Option.ite_none_right_eq_some] at h
  obtain ⟨⟨hne, hall, hlt⟩, heq⟩ := h
  refine ⟨_, ?_, hne, List.all_eq_true.1 hall, ?_⟩
  · split
    · rename_i l hl
      exact Or.inr hl
    · exact Or.inl rfl
  · rw [← Option.some.inj heq]
    exact (UInt32.toNat_ofNat_of_lt' hlt).symm

theorem parseU32_plus (hne : digits ≠ []) (hall : ∀ c ∈ digits, c.isDigit = true)
    (hlt : Nat.ofDigitChars 10 digits 0 < 2 ^ 32) :
    Text.parseU32 (String.ofList ('+' :: digits)) = some (UInt32.ofNat (Nat.ofDigitChars 10 digits 0)) := by
  unfold Text.parseU32
  rw [String.toList_ofList]
  exact if_pos ⟨hne, List.all_eq_true.2 hall, hlt⟩

/-! The three laws -/

theorem hash_notMem (hall : ∀ c ∈ digits, c.isDigit = true) : '#' ∉ digits := by
  intro h
  have := hall '#' h
  simp at this

theorem parsed (hU : U.isAlphanumeric '@' = false) (hv : validateUsername U name = .ok ())
    (hd : minDiscriminator ≤ disc) (hd' : disc ≤ maxDiscriminator) :
    parseUsername (formatUsername name disc) = some (name, disc) := by
  have hhead : name.toList.head? ≠ some '@' := by
    intro h
    unfold validateUsername at hv
    split_ifs at hv with hempty hshort hlong hchars halpha
    rw [h, Option.any_some, hU] at halpha
    exact absurd halpha (by decide)
  have hstrip : stripAt (formatUsername name disc) = formatUsername name disc := by
    unfold formatUsername
    rw [stripAt_append, stripAt_of_head hhead]
  rw [parseUsername_eq, hstrip, rsplitOnce_formatUsername, Option.bind_some, Text.parseU32_padded, Option.bind_some,
    if_pos ⟨hd, hd'⟩]

theorem rsplitOnce_plus (hall : ∀ c ∈ digits, c.isDigit = true) :
    Text.rsplitOnce '#' (name ++ String.singleton '#' ++ String.ofList ('+' :: digits)) =
      some (name, String.ofList ('+' :: digits)) := by
  refine Text.rsplitOnce_append ?_
  rw [String.toList_ofList, List.mem_cons]
  rintro (h | h)
  · exact absurd h (by decide)
  · exact hash_notMem hall h

/-- What is read but does not come back. -/
theorem parseUsername_plus (h : PlusSigned s) : ∃ name disc, parseUsername s = some (name, disc) ∧
    ¬ SameName U s (formatUsername name disc) := by
  obtain ⟨name, digits, rfl, hne, hall, hlow, hhigh⟩ := h
  have hvalue : (UInt32.ofNat (Nat.ofDigitChars 10 digits 0)).toNat = Nat.ofDigitChars 10 digits 0 :=
    UInt32.toNat_ofNat_of_lt' (Nat.lt_of_le_of_lt hhigh (by decide))
  have hrange : minDiscriminator ≤ UInt32.ofNat (Nat.ofDigitChars 10 digits 0) ∧
      UInt32.ofNat (Nat.ofDigitChars 10 digits 0) ≤ maxDiscriminator := by
    rw [UInt32.le_iff_toNat_le, UInt32.le_iff_toNat_le, hvalue]
    exact ⟨hlow, hhigh⟩
  refine ⟨stripAt name, UInt32.ofNat (Nat.ofDigitChars 10 digits 0), ?_, ?_⟩
  · rw [parseUsername_eq, stripAt_append, rsplitOnce_plus hall, Option.bind_some,
      parseU32_plus hne hall (by omega), Option.bind_some, if_pos hrange]
  · rintro ⟨name₁, -, digits₁, hall₁, ⟨mark, zeros, -, hs⟩, -, -⟩
    -- both cut the text at its last hash, and a plus is no digit
    have hall₂ : ∀ c ∈ List.replicate zeros '0' ++ digits₁, c.isDigit = true := by
      intro c hc
      rcases List.mem_append.1 hc with hc | hc
      · rw [List.eq_of_mem_replicate hc]
        decide
      · exact hall₁ c hc
    have hhash₂ : '#' ∉ (String.ofList (List.replicate zeros '0' ++ digits₁)).toList := by
      rw [String.toList_ofList]
      exact hash_notMem hall₂
    have hcut : Text.rsplitOnce '#' (name ++ String.singleton '#' ++ String.ofList ('+' :: digits)) = some (name, _) :=
      rsplitOnce_plus hall
    rw [hs, Text.rsplitOnce_append hhash₂] at hcut
    have heq := String.ofList_injective (Prod.mk.inj (Option.some.inj hcut)).2
    have hplus := hall₂ '+' (heq ▸ List.mem_cons_self)
    simp at hplus

theorem sameName_of_parse (hno : ¬ PlusSigned s) (h : parseUsername s = some (name, disc)) :
    SameName U s (formatUsername name disc) := by
  rw [parseUsername_eq] at h
  obtain ⟨⟨name', discStr⟩, hcut, h⟩ := Option.bind_eq_some_iff.1 h
  obtain ⟨disc', hparse, h⟩ := Option.bind_eq_some_iff.1 h
  split_ifs at h with hrange
  obtain ⟨rfl, rfl⟩ := Prod.mk.inj (Option.some.inj h)
  obtain ⟨mark, hmark, hs⟩ := stripAt_mark s
  rw [(Text.rsplitOnce_some hcut).1, ← String.append_assoc, ← String.append_assoc] at hs
  obtain ⟨digits, hdigits, hne, hall, hvalue⟩ := parseU32_some hparse
  rw [UInt32.le_iff_toNat_le, UInt32.le_iff_toNat_le, ← hvalue] at hrange
  rcases hdigits with hdigits | hdigits
  · obtain ⟨k, hk⟩ := Text.eq_zeros_append_toDigits hall hrange.1
    rw [hvalue] at hk
    refine ⟨name', name', Nat.toDigits 10 disc'.toNat, ?_, ⟨mark, k, hmark, ?_⟩, ⟨"", ?_⟩, rfl⟩
    · intro c hc
      exact Nat.isDigit_of_mem_toDigits (by decide) (by decide) hc
    · rw [hs, ← hk, ← hdigits, String.ofList_toList]
    · refine ⟨4 - (Nat.toDigits 10 disc'.toNat).length, Or.inl rfl, ?_⟩
      rw [String.empty_append]
      rfl
  · refine (hno ⟨mark ++ name', digits, ?_, hne, hall, hrange⟩).elim
    rw [hs, ← hdigits, String.ofList_toList]

theorem formatted_iff : (∀ name disc, parseUsername s = some (name, disc) → SameName U s (formatUsername name disc)) ↔
    ¬ PlusSigned s := by
  constructor
  · intro h hplus
    obtain ⟨name, disc, hparse, hnot⟩ := parseUsername_plus hplus
    exact hnot (h name disc hparse)
  · intro hno name disc hparse
    exact sameName_of_parse hno hparse

theorem peerName_storePeerNames {n : NameNode} (hn : n.peerNames = ∅) (stores : List PeerNameStore) (d : Did) :
    (n.storePeerNames stores).peerName d = lastStored stores d := by
  induction stores using List.reverseRecOn with
  | nil =>
    unfold NameNode.peerName NameNode.storePeerNames
    rw [List.foldl_nil, hn]
    simp [lastStored]
  | append_singleton stores x ih =>
    have hlast : (n.storePeerNames (stores ++ [x])).peerName d =
        if x.did = d ∧ x.faults "peer_names" d = false then some (x.username, x.discriminator)
        else (n.storePeerNames stores).peerName d := by
      unfold NameNode.storePeerNames
      rw [List.foldl_append, List.foldl_cons, List.foldl_nil]
      cases hf : x.faults "peer_names" x.did with
      | false =>
        rw [NameNode.peerName_storePeerName hf, Function.update_apply]
        by_cases hd : x.did = d
        · rw [if_pos hd.symm, if_pos ⟨hd, hd ▸ hf⟩]
        · rw [if_neg (Ne.symm hd), if_neg fun h => hd h.1]
      | true =>
        rw [if_neg]
        · unfold NameNode.peerName NameNode.storePeerName
          rw [treeInsert_error hf]
        · rintro ⟨rfl, h⟩
          rw [hf] at h
          cases h
    rw [hlast, ih]
    unfold lastStored
    rw [List.reverse_append, List.reverse_singleton, List.singleton_append, List.find?_cons]
    by_cases hx : x.did = d ∧ x.faults "peer_names" d = false
    · rw [if_pos hx, decide_eq_true hx]
      rfl
    · rw [if_neg hx, decide_eq_false hx]

theorem nodup_loadAllPeerNames (n : NameNode) : (n.loadAllPeerNames.map (·.1)).Nodup := by
  have hlist : n.loadAllPeerNames = n.peerNames.toList.filterMap fun e =>
      ((Text.rsplitOnce '#' e.2).bind fun p => (Text.parseU32 p.2).map fun disc => (p.1, disc)).map fun v =>
        (e.1, v) := by
    refine List.filterMap_congr fun e _ => ?_
    rw [Option.map_bind]
    refine congrArg _ (funext fun p => ?_)
    rw [Function.comp_apply, Option.map_map]
    rfl
  rw [hlist]
  exact (nodup_keys n.peerNames).sublist
    (InsertionMap.map_fst_filterMap (f := fun _ v => (Text.rsplitOnce '#' v).bind fun p =>
      (Text.parseU32 p.2).map fun disc => (p.1, disc)))

theorem textForms_iff (hU : U.isAlphanumeric '@' = false) (name : String) (disc : UInt32) (s : String) (n : NameNode)
    (stores : List PeerNameStore) : TextForms U name disc s n stores ↔ ¬ PlusSigned s := by
  constructor
  · intro h
    exact formatted_iff.1 h.formatted
  · intro hno
    refine ⟨parsed hU, formatted_iff.2 hno, fun hn => ⟨nodup_loadAllPeerNames _, fun x => ?_⟩⟩
    rw [NameNode.mem_loadAllPeerNames, peerName_storePeerNames hn]

/-- Latin letters and digits. -/
def ascii : Unicode := ⟨String.toLower, Char.isAlphanum⟩

def node : NameNode := ⟨"did:me", .new, ∅, none, ∅, []⟩

theorem typed_forms : TextForms ascii "Alice" 42 "@alice#42" node [⟨noFaults, "did:b", "a#b", 123456⟩] := by
  refine (textForms_iff (by decide) _ _ _ _ _).2 ?_
  rintro ⟨name, digits, heq, -, hall, -⟩
  have hcut := congrArg (Text.rsplitOnce '#') heq
  rw [rsplitOnce_plus hall] at hcut
  have hlist := congrArg (Option.map fun p => p.2.toList.head?) hcut
  rw [Option.map_some, String.toList_ofList, List.head?_cons] at hlist
  exact absurd hlist (by decide)

/-- A plus is read over. -/
theorem plus_lost : ¬ ∀ (U : Unicode), U.isAlphanumeric '@' = false → ∀ name disc s n stores,
    TextForms U name disc s n stores := by
  intro h
  have hforms := h ascii (by decide) "Alice" 42 "bob#+5" node []
  exact formatted_iff.1 hforms.formatted
    ⟨"bob", ['5'], by decide, by decide, List.all_eq_true.1 (by decide), by decide, by decide⟩

end NameForms
end Variance
