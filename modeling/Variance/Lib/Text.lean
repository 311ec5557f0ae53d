import Mathlib.Algebra.Ring.Int.Defs
import Mathlib.Data.List.Basic
import Mathlib.Data.List.Infix
import Mathlib.Data.List.TakeWhile
import Mathlib.Data.Nat.Notation
import Mathlib.Data.String.Basic
import Mathlib.Tactic.Common

/-! Searching in text, on the character lists of strings: the first occurrence
of a needle and the prefix test. -/

namespace Text

variable {α : Type*} [DecidableEq α]

/-- Cut `l` at the first occurrence of `needle`: what stands before it, and the rest, needle included. -/
def cut (needle : List α) : List α → Option (List α × List α)
  | [] => if needle = [] then some ([], []) else none
  | a :: l =>
    if needle <+: a :: l then some ([], a :: l)
    else (cut needle l).map fun p => (a :: p.1, p.2)

theorem cut_of_prefix {needle l : List α} (h : needle <+: l) : cut needle l = some ([], l) := by
  cases l with
  | nil => simp [cut, List.prefix_nil.1 h]
  | cons a l => simp [cut, h]

theorem cut_append {needle l : List α} {a b : List α} (h : cut needle l = some (a, b)) :
    l = a ++ b ∧ needle <+: b := by
  induction l generalizing a with
  | nil =>
    unfold cut at h
    split_ifs at h with hn
    obtain ⟨rfl, rfl⟩ : a = [] ∧ b = [] := by simpa [eq_comm] using h
    simp [hn]
  | cons c l ih =>
    unfold cut at h
    split_ifs at h with hp
    · obtain ⟨rfl, rfl⟩ : a = [] ∧ b = c :: l := by simpa [eq_comm] using h
      exact ⟨rfl, hp⟩
    · obtain ⟨⟨a', b'⟩, h', heq⟩ := Option.map_eq_some_iff.1 h
      obtain ⟨rfl, rfl⟩ : c :: a' = a ∧ b' = b := by simpa using heq
      exact ⟨by rw [(ih h').1]; rfl, (ih h').2⟩

/-- An occurrence after a stretch in which none starts is where the cut falls. -/
theorem cut_append_of_no_earlier {needle a b : List α} (hp : needle <+: b)
    (h : ∀ a' c, a = a' ++ c → c ≠ [] → ¬ needle <+: c ++ b) : cut needle (a ++ b) = some (a, b) := by
  induction a with
  | nil => exact cut_of_prefix hp
  | cons d a ih =>
    have hd : ¬ needle <+: d :: (a ++ b) := h [] (d :: a) rfl (by simp)
    have ih' := ih fun a' c hc hne => h (d :: a') c (by rw [hc]; rfl) hne
    simp [cut, hd, ih']

/-- Nor does the cut fall anywhere else. -/
theorem no_earlier_of_cut {needle l a b : List α} (h : cut needle l = some (a, b)) :
    ∀ a' c, a = a' ++ c → c ≠ [] → ¬ needle <+: c ++ b := by
  induction l generalizing a with
  | nil =>
    unfold cut at h
    split_ifs at h with hn
    obtain ⟨rfl, -⟩ : a = [] ∧ b = [] := by simpa [eq_comm] using h
    intro a' c hc hne
    exact (hne (List.append_eq_nil_iff.1 hc.symm).2).elim
  | cons d l ih =>
    unfold cut at h
    split_ifs at h with hp
    · obtain ⟨rfl, -⟩ : a = [] ∧ b = d :: l := by simpa [eq_comm] using h
      intro a' c hc hne
      exact (hne (List.append_eq_nil_iff.1 hc.symm).2).elim
    · obtain ⟨⟨a₁, b₁⟩, hcut, heq⟩ := Option.map_eq_some_iff.1 h
      obtain ⟨rfl, rfl⟩ : d :: a₁ = a ∧ b₁ = b := by simpa using heq
      intro a' c hc hne
      cases a' with
      | nil =>
        rw [← show d :: a₁ = c from hc, List.cons_append, ← (cut_append hcut).1]
        exact hp
      | cons x a' => exact ih hcut a' c (List.cons.inj hc).2 hne

theorem cut_eq_none_iff {needle l : List α} : cut needle l = none ↔ ¬ needle <:+: l := by
  induction l with
  | nil => simp [cut, List.infix_nil]
  | cons a l ih =>
    unfold cut
    split_ifs with hp
    · simp [hp.isInfix]
    · rw [Option.map_eq_none_iff, ih, List.infix_cons_iff]
      simp [hp]

/-- `s` begins with `p`. -/
def HasPrefix (p s : String) : Prop := p.toList <+: s.toList

instance (p s : String) : Decidable (HasPrefix p s) := inferInstanceAs (Decidable (_ <+: _))

/-- `s` ends with `p`. -/
def HasSuffix (p s : String) : Prop := p.toList <:+ s.toList

instance (p s : String) : Decidable (HasSuffix p s) := inferInstanceAs (Decidable (_ <:+ _))

/-- `s` contains `p`. -/
def Occurs (p s : String) : Prop := p.toList <:+: s.toList

instance (p s : String) : Decidable (Occurs p s) := inferInstanceAs (Decidable (_ <:+: _))

theorem hasPrefix_append (p s : String) : HasPrefix p (p ++ s) := by
  simp [HasPrefix, String.toList_append]

theorem HasPrefix.append {p s : String} (h : HasPrefix p s) (t : String) : HasPrefix p (s ++ t) := by
  unfold HasPrefix
  rw [String.toList_append]
  exact h.trans (List.prefix_append _ _)

theorem HasPrefix.trans {p q s : String} (h : HasPrefix p q) (h' : HasPrefix q s) : HasPrefix p s :=
  List.IsPrefix.trans h h'

theorem append_right_inj {p a b : String} : p ++ a = p ++ b ↔ a = b := by
  simp [← String.toList_inj, String.toList_append]

theorem append_left_inj {s a b : String} : a ++ s = b ++ s ↔ a = b := by
  simp [← String.toList_inj, String.toList_append]

/-- `find` and the two slices around it, on strings. -/
def cutString (needle s : String) : Option (String × String) :=
  (cut needle.toList s.toList).map fun p => (String.ofList p.1, String.ofList p.2)

theorem cutString_append {needle s a b : String} (h : cutString needle s = some (a, b)) :
    s = a ++ b ∧ HasPrefix needle b := by
  obtain ⟨⟨x, y⟩, hc, heq⟩ := Option.map_eq_some_iff.1 h
  obtain ⟨rfl, rfl⟩ : String.ofList x = a ∧ String.ofList y = b := by simpa using heq
  obtain ⟨hs, hp⟩ := cut_append hc
  refine ⟨?_, by simpa [HasPrefix] using hp⟩
  rw [← String.toList_inj]
  simpa [String.toList_append] using hs

theorem cutString_eq_none_iff {needle s : String} : cutString needle s = none ↔ ¬ Occurs needle s := by
  unfold cutString Occurs
  rw [Option.map_eq_none_iff, cut_eq_none_iff]

/-- `s.rsplit_once(c)`: what stands before the last `c`, and what after it. -/
def rsplitOnce (c : Char) (s : String) : Option (String × String) :=
  let tail := s.toList.reverse.takeWhile (· ≠ c)
  if c ∈ s.toList then
    some (String.ofList (s.toList.reverse.drop (tail.length + 1)).reverse, String.ofList tail.reverse)
  else none

theorem rsplitOnce_append {c : Char} {a b : String} (h : c ∉ b.toList) :
    rsplitOnce c (a ++ String.singleton c ++ b) = some (a, b) := by
  have hrev : (a ++ String.singleton c ++ b).toList.reverse = b.toList.reverse ++ c :: a.toList.reverse := by
    simp [String.toList_append]
  have htail : (b.toList.reverse ++ c :: a.toList.reverse).takeWhile (· ≠ c) = b.toList.reverse := by
    rw [List.takeWhile_append_of_pos]
    · simp
    · intro x hx
      have : x ≠ c := fun hxc => h (by simpa [hxc] using hx)
      simpa using this
  have hdrop : (b.toList.reverse ++ c :: a.toList.reverse).drop (b.toList.reverse.length + 1) =
      a.toList.reverse := by
    rw [List.drop_append]
    simp
  unfold rsplitOnce
  rw [if_pos (by simp [String.toList_append]), hrev, htail, hdrop]
  simp

theorem takeWhile_ne_append {c : α} {l : List α} (h : c ∈ l) :
    l.takeWhile (· ≠ c) ++ c :: l.drop ((l.takeWhile (· ≠ c)).length + 1) = l := by
  induction l with
  | nil => simp at h
  | cons x l ih =>
    by_cases hx : x = c
    · simp [hx]
    · have hmem : c ∈ l := (List.mem_cons.1 h).resolve_left fun heq => hx heq.symm
      simpa [hx] using ih hmem

/-- And nothing else comes apart so. -/
theorem rsplitOnce_some {c : Char} {s a b : String} (h : rsplitOnce c s = some (a, b)) :
    s = a ++ String.singleton c ++ b ∧ c ∉ b.toList := by
  unfold rsplitOnce at h
  dsimp only at h
  split_ifs at h with hc
  obtain ⟨rfl, rfl⟩ := Prod.mk.inj (Option.some.inj h)
  constructor
  · have hlist := congrArg List.reverse (takeWhile_ne_append (List.mem_reverse.2 hc))
    rw [← String.toList_inj]
    simpa [String.toList_append] using hlist.symm
  · intro hmem
    rw [String.toList_ofList, List.mem_reverse] at hmem
    simpa using List.mem_takeWhile_imp hmem

omit [DecidableEq α] in
/-- What stands before the first `c` and what after it are told apart. -/
theorem append_cons_inj {c : α} {a a' b b' : List α} (ha : c ∉ a) (ha' : c ∉ a') (h : a ++ c :: b = a' ++ c :: b') :
    a = a' ∧ b = b' := by
  induction a generalizing a' with
  | nil =>
    cases a' with
    | nil => exact ⟨rfl, List.tail_eq_of_cons_eq h⟩
    | cons x a' => exact absurd (List.mem_cons.2 (Or.inl (List.head_eq_of_cons_eq h))) ha'
  | cons x a ih =>
    cases a' with
    | nil => exact absurd (List.mem_cons.2 (Or.inl (List.head_eq_of_cons_eq h).symm)) ha
    | cons y a' =>
      obtain ⟨rfl, htail⟩ := List.cons_eq_cons.1 h
      obtain ⟨rfl, rfl⟩ := ih (fun hc => ha (List.mem_cons_of_mem _ hc)) (fun hc => ha' (List.mem_cons_of_mem _ hc))
        htail
      exact ⟨rfl, rfl⟩

omit [DecidableEq α] in
/-- And what stands after the last one is the end that has none. -/
theorem cons_suffix_iff {c : α} {a b x : List α} (hb : c ∉ b) (hx : c ∉ x) : c :: x <:+ a ++ c :: b ↔ x = b := by
  constructor
  · rintro ⟨y, hy⟩
    have hrev := congrArg List.reverse hy
    simp only [List.reverse_append, List.reverse_cons, List.append_assoc, List.singleton_append] at hrev
    exact List.reverse_injective
      (append_cons_inj (by simpa using hx) (by simpa using hb) hrev).1
  · rintro rfl
    exact List.suffix_append _ _

/-- Of two beginnings that `c` ends, with as many of it, neither goes on. -/
theorem append_inj_of_count {c : α} {x y l : List α} (hx : x ++ [c] <+: l) (hy : y ++ [c] <+: l)
    (h : x.count c = y.count c) : x = y := by
  have hlonger (x y : List α) (h : x.count c = y.count c) (hp : x ++ [c] <+: y ++ [c]) : x = y := by
    rcases List.prefix_concat_iff.1 hp with heq | hp
    · exact List.append_cancel_right heq
    · have := hp.sublist.count_le c
      rw [List.count_append, List.count_singleton_self] at this
      omega
  rcases List.prefix_or_prefix_of_prefix hx hy with hp | hp
  · exact hlonger x y h hp
  · exact (hlonger y x h.symm hp).symm

/-- Nor of two ends. -/
theorem cons_inj_of_count {c : α} {x y l : List α} (hx : c :: x <:+ l) (hy : c :: y <:+ l)
    (h : x.count c = y.count c) : x = y := by
  have hlonger (x y : List α) (h : x.count c = y.count c) (hp : c :: x <:+ c :: y) : x = y := by
    rcases List.suffix_cons_iff.1 hp with heq | hp
    · exact List.tail_eq_of_cons_eq heq
    · have := hp.sublist.count_le c
      rw [List.count_cons_self] at this
      omega
  rcases List.suffix_or_suffix_of_suffix hx hy with hp | hp
  · exact hlonger x y h hp
  · exact (hlonger y x h.symm hp).symm

/-- `n` in decimal, padded with zeroes to `width`. -/
def padded (width n : ℕ) : String :=
  String.ofList (List.replicate (width - (Nat.toDigits 10 n).length) '0' ++ Nat.toDigits 10 n)

/-- `s.parse::<u32>()`: an optional sign, then digits. -/
def parseU32 (s : String) : Option UInt32 :=
  let digits := match s.toList with
    | '+' :: l => l
    | l => l
  let n := Nat.ofDigitChars 10 digits 0
  if digits ≠ [] ∧ digits.all Char.isDigit ∧ n < 2 ^ 32 then some (UInt32.ofNat n) else none

/-- Whether a minus stands first, and what follows the sign. -/
def splitSign : List Char → Bool × List Char
  | '-' :: l => (true, l)
  | '+' :: l => (false, l)
  | l => (false, l)

theorem splitSign_digits {l : List Char} (h : ∀ c ∈ l, c.isDigit = true) : splitSign l = (false, l) := by
  unfold splitSign
  split
  · have := h '-' (by simp)
    simp at this
  · have := h '+' (by simp)
    simp at this
  · rfl

/-- `s.parse::<i64>()`. -/
def parseI64 (s : String) : Option ℤ :=
  let digits := (splitSign s.toList).2
  let n : ℤ := Nat.ofDigitChars 10 digits 0
  let n := if (splitSign s.toList).1 then -n else n
  if digits ≠ [] ∧ digits.all Char.isDigit ∧ -2 ^ 63 ≤ n ∧ n < 2 ^ 63 then some n else none

theorem parseI64_bounds {s : String} {t : ℤ} (h : parseI64 s = some t) : -2 ^ 63 ≤ t ∧ t < 2 ^ 63 := by
  unfold parseI64 at h
  dsimp only at h
  rw [Option.ite_none_right_eq_some] at h
  obtain ⟨⟨-, -, hbounds⟩, heq⟩ := h
  exact Option.some.inj heq ▸ hbounds

theorem padded_toList (width n : ℕ) : (padded width n).toList =
    List.replicate (width - (Nat.toDigits 10 n).length) '0' ++ Nat.toDigits 10 n := by
  simp [padded]

theorem isDigit_padded {width n : ℕ} {c : Char} (h : c ∈ (padded width n).toList) : c.isDigit = true := by
  rw [padded_toList] at h
  rcases List.mem_append.1 h with h | h
  · rw [List.eq_of_mem_replicate h]
    decide
  · exact Nat.isDigit_of_mem_toDigits (by decide) (by decide) h

theorem parseU32_padded (width : ℕ) (d : UInt32) : parseU32 (padded width d.toNat) = some d := by
  have hall : ∀ c ∈ (padded width d.toNat).toList, c.isDigit = true := fun c hc => isDigit_padded hc
  have hne : (padded width d.toNat).toList ≠ [] := by
    rw [padded_toList]
    simp [Nat.toDigits_ne_nil]
  have hval : Nat.ofDigitChars 10 (padded width d.toNat).toList 0 = d.toNat := by
    rw [padded_toList, Nat.ofDigitChars_append, Nat.ofDigitChars_replicate_zero, Nat.mul_zero,
      Nat.ofDigitChars_ten_toDigits]
  -- no sign: the text starts with a digit
  have hsign : (match (padded width d.toNat).toList with | '+' :: l => l | l => l) =
      (padded width d.toNat).toList := by
    split
    · rename_i l hl
      have := hall '+' (by simp [hl])
      simp at this
    · rfl
  unfold parseU32
  rw [hsign]
  dsimp only
  rw [if_pos ⟨hne, List.all_eq_true.2 hall, by rw [hval]; exact d.toNat_lt⟩, hval]
  simp

end Text

namespace Text

/-! The order of texts: those under one prefix stand together, and numbers padded to one width stand in their own
order. -/

section
variable {α : Type*} [LinearOrder α] {p u v a b c : List α}

theorem append_lt_append_iff : p ++ a < p ++ b ↔ a < b := by
  induction p with
  | nil => rfl
  | cons x p ih =>
    rw [List.cons_append, List.cons_append, List.cons_lt_cons_iff]
    simpa using ih

/-- Of two texts that begin with stretches of one length, the stretches decide. -/
theorem append_lt_append (hlen : u.length = v.length) (h : u < v) : u ++ a < v ++ b := by
  induction u generalizing v with
  | nil =>
    rw [List.length_eq_zero_iff.1 hlen.symm] at h
    exact absurd h (List.not_lt_nil _)
  | cons x u ih =>
    cases v with
    | nil => cases hlen
    | cons y v =>
      rw [List.cons_append, List.cons_append, List.cons_lt_cons_iff]
      rcases List.cons_lt_cons_iff.1 h with hxy | ⟨rfl, huv⟩
      · exact Or.inl hxy
      · exact Or.inr ⟨rfl, ih (Nat.succ.inj hlen) huv⟩

/-- And what follows them decides where they are the same. -/
theorem append_lt_append_iff_or (hlen : u.length = v.length) : u ++ a < v ++ b ↔ u < v ∨ u = v ∧ a < b := by
  constructor
  · intro h
    rcases lt_trichotomy u v with huv | rfl | hvu
    · exact Or.inl huv
    · exact Or.inr ⟨rfl, append_lt_append_iff.1 h⟩
    · exact absurd h (lt_asymm (append_lt_append hlen.symm hvu))
  · rintro (h | ⟨rfl, h⟩)
    · exact append_lt_append hlen h
    · exact append_lt_append_iff.2 h

/-- What stands between two texts with a prefix has it too. -/
theorem prefix_of_between (ha : p <+: a) (hc : p <+: c) (hab : ¬ b < a) (hbc : ¬ c < b) : p <+: b := by
  induction p generalizing a b c with
  | nil => exact List.nil_prefix
  | cons x p ih =>
    obtain ⟨a, rfl⟩ := ha
    obtain ⟨c, rfl⟩ := hc
    cases b with
    | nil => exact absurd (List.nil_lt_cons _ _) hab
    | cons y b =>
      rw [List.cons_append, List.cons_lt_cons_iff, not_or, not_and] at hab hbc
      obtain rfl : y = x := le_antisymm (not_lt.1 hbc.1) (not_lt.1 hab.1)
      exact (List.prefix_cons_inj y).2 (ih (List.prefix_append _ _) (List.prefix_append _ _) (hab.2 rfl) (hbc.2 rfl))

end

/-! Numbers of one width -/

theorem digit_le_nine {d : Char} (h : d.isDigit = true) : d.toNat - '0'.toNat ≤ 9 ∧ '0'.toNat ≤ d.toNat := by
  have hd := Char.isDigit_iff_toNat.1 h
  have h9 : '9'.toNat = '0'.toNat + 9 := rfl
  omega

theorem ofDigitChars_cons_zero (d : Char) (l : List Char) : Nat.ofDigitChars 10 (d :: l) 0 =
    10 ^ l.length * (d.toNat - '0'.toNat) + Nat.ofDigitChars 10 l 0 := by
  rw [Nat.ofDigitChars_cons, Nat.ofDigitChars_eq_ofDigitChars_zero, Nat.mul_zero, Nat.zero_add]

theorem ofDigitChars_lt {l : List Char} (h : ∀ d ∈ l, d.isDigit = true) : Nat.ofDigitChars 10 l 0 < 10 ^ l.length := by
  induction l with
  | nil => simp
  | cons d l ih =>
    have hd := (digit_le_nine (h d List.mem_cons_self)).1
    have hl := ih fun e he => h e (List.mem_cons_of_mem d he)
    rw [ofDigitChars_cons_zero, List.length_cons, pow_succ]
    have hmul : 10 ^ l.length * (d.toNat - '0'.toNat) ≤ 10 ^ l.length * 9 := Nat.mul_le_mul_left _ hd
    omega

theorem lt_of_ofDigitChars_lt {u v : List Char} (hu : ∀ d ∈ u, d.isDigit = true) (hv : ∀ d ∈ v, d.isDigit = true)
    (hlen : u.length = v.length) (h : Nat.ofDigitChars 10 u 0 < Nat.ofDigitChars 10 v 0) : u < v := by
  induction u generalizing v with
  | nil =>
    rw [List.length_eq_zero_iff.1 hlen.symm] at h
    exact absurd h (lt_irrefl _)
  | cons x u ih =>
    cases v with
    | nil => cases hlen
    | cons y v =>
      have hlen' : u.length = v.length := Nat.succ.inj hlen
      have hu' : ∀ d ∈ u, d.isDigit = true := fun d hd => hu d (List.mem_cons_of_mem x hd)
      have hv' : ∀ d ∈ v, d.isDigit = true := fun d hd => hv d (List.mem_cons_of_mem y hd)
      have hx := digit_le_nine (hu x List.mem_cons_self)
      have hy := digit_le_nine (hv y List.mem_cons_self)
      rw [ofDigitChars_cons_zero, ofDigitChars_cons_zero, hlen'] at h
      rw [List.cons_lt_cons_iff]
      rcases lt_trichotomy x y with hxy | rfl | hyx
      · exact Or.inl hxy
      · exact Or.inr ⟨rfl, ih hu' hv' hlen' (by omega)⟩
      · -- the greater first digit outweighs all that follows
        have hlt : y.toNat < x.toNat := hyx
        have hbound := ofDigitChars_lt hv'
        have hmul : 10 ^ v.length * (y.toNat - '0'.toNat + 1) ≤ 10 ^ v.length * (x.toNat - '0'.toNat) :=
          Nat.mul_le_mul_left _ (by omega)
        rw [Nat.mul_add] at hmul
        omega

theorem toDigits_digit {c : Char} (h : c.isDigit = true) : Nat.toDigits 10 (c.toNat - '0'.toNat) = [c] := by
  obtain ⟨hhigh, hlow⟩ := digit_le_nine h
  have hc : Nat.digitChar (c.toNat - '0'.toNat) = c := by
    apply Char.toNat_inj.1
    rw [Nat.toNat_digitChar_of_lt_ten (by omega)]
    exact Nat.add_sub_of_le hlow
  rw [Nat.toDigits_of_lt_base (by omega), hc]

/-- A numeral goes on. -/
theorem toDigits_append {n : ℕ} (hn : 0 < n) {l : List Char} (hl : ∀ c ∈ l, c.isDigit = true) :
    Nat.toDigits 10 n ++ l = Nat.toDigits 10 (Nat.ofDigitChars 10 l n) := by
  induction l generalizing n with
  | nil => simp
  | cons c l ih =>
    obtain ⟨hc, hl'⟩ := List.forall_mem_cons.1 hl
    have hdigit := (digit_le_nine hc).1
    calc Nat.toDigits 10 n ++ c :: l = Nat.toDigits 10 n ++ [c] ++ l := by simp
      _ = Nat.toDigits 10 (10 * n + (c.toNat - '0'.toNat)) ++ l := by
        rw [← toDigits_digit hc, Nat.toDigits_append_toDigits (by decide) hn (by omega)]
      _ = Nat.toDigits 10 (Nat.ofDigitChars 10 (c :: l) n) := by
        rw [Nat.ofDigitChars_cons]
        exact ih (by omega) hl'

/-- A numeral that is not zero is its number in decimal, after some zeroes. -/
theorem eq_zeros_append_toDigits {l : List Char} (hl : ∀ c ∈ l, c.isDigit = true)
    (h : 0 < Nat.ofDigitChars 10 l 0) :
    ∃ k, l = List.replicate k '0' ++ Nat.toDigits 10 (Nat.ofDigitChars 10 l 0) := by
  induction l with
  | nil => simp at h
  | cons c l ih =>
    obtain ⟨hc, hl'⟩ := List.forall_mem_cons.1 hl
    rw [Nat.ofDigitChars_cons, Nat.mul_zero, Nat.zero_add] at h ⊢
    by_cases hzero : c = '0'
    · subst hzero
      obtain ⟨k, hk⟩ := ih hl' (by simpa using h)
      exact ⟨k + 1, by rw [List.replicate_succ, List.cons_append]; simpa using hk⟩
    · have hne : c.toNat ≠ '0'.toNat := fun heq => hzero (Char.toNat_inj.1 heq)
      have hlow := (digit_le_nine hc).2
      refine ⟨0, ?_⟩
      rw [← toDigits_append (by omega) hl', toDigits_digit hc]
      rfl

theorem length_padded {width n : ℕ} (h0 : 0 < width) (h : n < 10 ^ width) :
    (padded width n).toList.length = width := by
  have hle : (Nat.toDigits 10 n).length ≤ width := (Nat.length_toDigits_le_iff (by decide) h0).2 h
  rw [padded_toList, List.length_append, List.length_replicate]
  omega

end Text

namespace Text

/-! Hexadecimal text. -/

def hexDigit (n : ℕ) : Char := Char.ofNat (if n < 10 then 48 + n else 87 + n)

/-- Lower and upper case letters both stand for a digit. -/
def hexValue (c : Char) : Option ℕ :=
  let n := c.toNat
  if 48 ≤ n ∧ n ≤ 57 then some (n - 48)
  else if 97 ≤ n ∧ n ≤ 102 then some (n - 87)
  else if 65 ≤ n ∧ n ≤ 70 then some (n - 55)
  else none

def hexChars (b : List UInt8) : List Char :=
  b.flatMap fun x => [hexDigit (x.toNat / 16), hexDigit (x.toNat % 16)]

def unhexChars : List Char → Option (List UInt8)
  | [] => some []
  | [_] => none
  | x :: y :: r => do
    let h ← hexValue x
    let l ← hexValue y
    let r ← unhexChars r
    pure (UInt8.ofNat (16 * h + l) :: r)

theorem hexValue_hexDigit {n : ℕ} (h : n < 16) : hexValue (hexDigit n) = some n := by
  revert n
  decide

theorem unhexChars_hexChars (b : List UInt8) : unhexChars (hexChars b) = some b := by
  induction b with
  | nil => rfl
  | cons x b ih =>
    have hx : x.toNat < 256 := x.toNat_lt
    have hback : 16 * (x.toNat / 16) + x.toNat % 16 = x.toNat := by omega
    show (do
      let h ← hexValue (hexDigit (x.toNat / 16))
      let l ← hexValue (hexDigit (x.toNat % 16))
      let r ← unhexChars (hexChars b)
      pure (UInt8.ofNat (16 * h + l) :: r)) = some (x :: b)
    rw [hexValue_hexDigit (by omega), hexValue_hexDigit (by omega), ih]
    show some (UInt8.ofNat (16 * (x.toNat / 16) + x.toNat % 16) :: b) = some (x :: b)
    rw [hback, UInt8.ofNat_toNat]

theorem hexChars_inj {a b : List UInt8} : hexChars a = hexChars b ↔ a = b := by
  refine ⟨fun h => ?_, congrArg hexChars⟩
  have hback := unhexChars_hexChars a
  rw [h, unhexChars_hexChars] at hback
  exact (Option.some.inj hback).symm

theorem colon_notMem_hexChars (b : List UInt8) : ':' ∉ hexChars b := by
  have hdigit (n : ℕ) (h : n < 16) : hexDigit n ≠ ':' := by
    revert n
    decide
  intro h
  obtain ⟨x, -, hx⟩ := List.mem_flatMap.1 h
  have hlt : x.toNat < 256 := x.toNat_lt
  rcases List.mem_cons.1 hx with hx | hx
  · exact hdigit _ (by omega) hx.symm
  · exact hdigit _ (by omega) (List.mem_singleton.1 hx).symm

end Text
