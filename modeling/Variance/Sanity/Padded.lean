import Variance.Lib.Text
import Variance.Spec.Storage

/-! Timestamps as they stand in keys. -/

namespace Variance

open Text

theorem toList_toString_nat (n : ℕ) : (toString n).toList = Nat.toDigits 10 n := by
  rw [Nat.toString_eq_repr]
  exact Nat.toList_repr

theorem pad20_of_nonneg {t : ℤ} (h : 0 ≤ t) : (pad20 t).toList = (padded 20 t.natAbs).toList := by
  unfold pad20
  dsimp only
  rw [if_neg (not_lt.2 h), padded_toList, toList_toString_nat, String.toList_ofList]

theorem pad20_of_neg {t : ℤ} (h : t < 0) : (pad20 t).toList = '-' :: (padded 19 t.natAbs).toList := by
  unfold pad20
  dsimp only
  rw [if_pos h, padded_toList, toList_toString_nat, String.toList_ofList, List.cons_append]

theorem colon_notMem_pad20 (t : ℤ) : ':' ∉ (pad20 t).toList := by
  have hpad (w n : ℕ) : ':' ∉ (padded w n).toList := by
    intro hc
    have := isDigit_padded hc
    simp at this
  rcases lt_or_ge t 0 with h | h
  · rw [pad20_of_neg h, List.mem_cons, not_or]
    exact ⟨by decide, hpad _ _⟩
  · rw [pad20_of_nonneg h]
    exact hpad _ _

/-- A key that ends in a timestamp and an id comes apart again, if the id has no colon. -/
theorem rsplitOnce_stamped {p : String} {t : ℤ} : rsplitOnce ':' (p ++ ":" ++ pad20 t) = some (p, pad20 t) :=
  rsplitOnce_append (colon_notMem_pad20 t)

theorem rsplitOnce_filed {p id : String} {t : ℤ} (h : ':' ∉ id.toList) :
    rsplitOnce ':' (p ++ ":" ++ pad20 t ++ ":" ++ id) = some (p ++ ":" ++ pad20 t, id) := rsplitOnce_append h

theorem ofDigitChars_padded (w n : ℕ) : Nat.ofDigitChars 10 (padded w n).toList 0 = n := by
  rw [padded_toList, Nat.ofDigitChars_append, Nat.ofDigitChars_replicate_zero, Nat.mul_zero,
    Nat.ofDigitChars_ten_toDigits]

theorem padded_ne_nil (w n : ℕ) : (padded w n).toList ≠ [] := by
  rw [padded_toList]
  simp [Nat.toDigits_ne_nil]

/-- A padded timestamp reads back as itself. -/
theorem parseI64_pad20 {t : ℤ} (hlo : -2 ^ 63 ≤ t) (hhi : t < 2 ^ 63) : parseI64 (pad20 t) = some t := by
  have hall (w n : ℕ) : (padded w n).toList.all Char.isDigit = true :=
    List.all_eq_true.2 fun c hc => isDigit_padded hc
  unfold parseI64
  rcases lt_or_ge t 0 with h | h
  · have hsign : splitSign (pad20 t).toList = (true, (padded 19 t.natAbs).toList) := by
      rw [pad20_of_neg h]
      rfl
    have hval : -(t.natAbs : ℤ) = t := by omega
    simp only [hsign, ofDigitChars_padded, if_true, hval]
    exact if_pos ⟨padded_ne_nil _ _, hall _ _, hlo, hhi⟩
  · have hsign : splitSign (pad20 t).toList = (false, (padded 20 t.natAbs).toList) := by
      rw [pad20_of_nonneg h]
      exact splitSign_digits fun c hc => isDigit_padded hc
    have hval : (t.natAbs : ℤ) = t := by omega
    simp only [hsign, ofDigitChars_padded, Bool.false_eq_true, if_false, hval]
    exact if_pos ⟨padded_ne_nil _ _, hall _ _, hlo, hhi⟩

theorem pad20_inj {a b : ℤ} : pad20 a = pad20 b ↔ a = b := by
  refine ⟨fun h => ?_, fun h => h ▸ rfl⟩
  have hl : (pad20 a).toList = (pad20 b).toList := by rw [h]
  -- a minus is no digit
  have hsign (w n : ℕ) (l : List Char) : '-' :: l ≠ (padded w n).toList := fun hl => by
    have := isDigit_padded (hl ▸ List.mem_cons_self : '-' ∈ (padded w n).toList)
    simp at this
  rcases lt_or_ge a 0 with ha | ha <;> rcases lt_or_ge b 0 with hb | hb
  · rw [pad20_of_neg ha, pad20_of_neg hb, List.cons_inj_right] at hl
    have := congrArg (Nat.ofDigitChars 10 · 0) hl
    simp only [ofDigitChars_padded] at this
    omega
  · rw [pad20_of_neg ha, pad20_of_nonneg hb] at hl
    exact (hsign _ _ _ hl).elim
  · rw [pad20_of_nonneg ha, pad20_of_neg hb] at hl
    exact (hsign _ _ _ hl.symm).elim
  · rw [pad20_of_nonneg ha, pad20_of_nonneg hb] at hl
    have := congrArg (Nat.ofDigitChars 10 · 0) hl
    simp only [ofDigitChars_padded] at this
    omega

/-! In the order of time, unless they are negative -/

theorem length_pad20 {t : ℤ} (h0 : 0 ≤ t) (h : t < 10 ^ 20) : (pad20 t).toList.length = 20 := by
  rw [pad20_of_nonneg h0]
  exact length_padded (by decide) (by omega)

theorem pad20_lt {a b : ℤ} (h0 : 0 ≤ a) (hab : a < b) (h : b < 10 ^ 20) : (pad20 a).toList < (pad20 b).toList := by
  have hlen : (pad20 a).toList.length = (pad20 b).toList.length := by
    rw [length_pad20 h0 (by omega), length_pad20 (by omega) h]
  rw [pad20_of_nonneg h0, pad20_of_nonneg (by omega)] at hlen ⊢
  refine lt_of_ofDigitChars_lt (fun d hd => isDigit_padded hd) (fun d hd => isDigit_padded hd) hlen ?_
  rw [ofDigitChars_padded, ofDigitChars_padded]
  omega

/-! The order of any two -/

/-- How padded timestamps are ordered: negative ones first, and among themselves the other way round. -/
def StampedBefore (a b : ℤ) : Prop := (0 ≤ b ∧ a < b) ∨ (a < 0 ∧ b < a)

instance (a b : ℤ) : Decidable (StampedBefore a b) := inferInstanceAs (Decidable (_ ∨ _))

theorem StampedBefore.total {a b : ℤ} (h : a ≠ b) : StampedBefore a b ∨ StampedBefore b a := by
  unfold StampedBefore
  omega

/-- That is the order of time where they are not both negative. -/
theorem stampedBefore_iff {a b : ℤ} (h : a < 0 → b < 0 → a = b) : StampedBefore a b ↔ a < b := by
  unfold StampedBefore
  omega

theorem length_pad20_neg {t : ℤ} (h0 : t < 0) (h : -10 ^ 19 < t) : (pad20 t).toList.length = 20 := by
  rw [pad20_of_neg h0, List.length_cons, length_padded (by decide) (by omega)]

theorem length_pad20_of_fits {t : ℤ} (hlo : -2 ^ 63 ≤ t) (hhi : t < 2 ^ 63) : (pad20 t).toList.length = 20 := by
  rcases lt_or_ge t 0 with h | h
  · exact length_pad20_neg h (by omega)
  · exact length_pad20 h (by omega)

theorem pad20_lt_of_neg {a b : ℤ} (hab : a < b) (hb : b < 0) (h : -10 ^ 19 < a) :
    (pad20 b).toList < (pad20 a).toList := by
  have hlen : (padded 19 b.natAbs).toList.length = (padded 19 a.natAbs).toList.length := by
    rw [length_padded (by decide) (by omega), length_padded (by decide) (by omega)]
  rw [pad20_of_neg hb, pad20_of_neg (by omega), List.cons_lt_cons_iff]
  refine Or.inr ⟨rfl, ?_⟩
  refine lt_of_ofDigitChars_lt (fun d hd => isDigit_padded hd) (fun d hd => isDigit_padded hd) hlen ?_
  rw [ofDigitChars_padded, ofDigitChars_padded]
  omega

/-- A minus comes before the digits. -/
theorem pad20_neg_lt {a b : ℤ} (ha : a < 0) (hb : 0 ≤ b) : (pad20 a).toList < (pad20 b).toList := by
  rw [pad20_of_neg ha, pad20_of_nonneg hb]
  cases hp : (padded 20 b.natAbs).toList with
  | nil => exact absurd hp (padded_ne_nil _ _)
  | cons d l =>
    have hd : d.isDigit = true := isDigit_padded (hp ▸ List.mem_cons_self : d ∈ (padded 20 b.natAbs).toList)
    rw [List.cons_lt_cons_iff]
    exact Or.inl (lt_of_lt_of_le (by decide : '-' < '0') (digit_le_nine hd).2)

theorem pad20_lt_iff {a b : ℤ} (ha : -2 ^ 63 ≤ a ∧ a < 2 ^ 63) (hb : -2 ^ 63 ≤ b ∧ b < 2 ^ 63) :
    (pad20 a).toList < (pad20 b).toList ↔ StampedBefore a b := by
  have hlt {a b : ℤ} (ha : -2 ^ 63 ≤ a ∧ a < 2 ^ 63) (hb : -2 ^ 63 ≤ b ∧ b < 2 ^ 63) (h : StampedBefore a b) :
      (pad20 a).toList < (pad20 b).toList := by
    rcases h with ⟨hb0, hab⟩ | ⟨ha0, hba⟩
    · rcases lt_or_ge a 0 with ha0 | ha0
      · exact pad20_neg_lt ha0 hb0
      · exact pad20_lt ha0 hab (by omega)
    · exact pad20_lt_of_neg hba ha0 (by omega)
  refine ⟨fun h => ?_, hlt ha hb⟩
  by_contra hnot
  rcases eq_or_ne a b with rfl | hne
  · exact lt_irrefl _ h
  · exact lt_asymm h (hlt hb ha ((StampedBefore.total hne).resolve_left hnot))

/-- Keys that begin alike are ordered by their timestamps, and then by what follows. -/
theorem stamped_lt_iff {p u v : String} {a b : ℤ} (ha : -2 ^ 63 ≤ a ∧ a < 2 ^ 63) (hb : -2 ^ 63 ≤ b ∧ b < 2 ^ 63) :
    p ++ pad20 a ++ u < p ++ pad20 b ++ v ↔ StampedBefore a b ∨ a = b ∧ u < v := by
  have hlen : (pad20 a).toList.length = (pad20 b).toList.length := by
    rw [length_pad20_of_fits ha.1 ha.2, length_pad20_of_fits hb.1 hb.2]
  rw [String.lt_iff]
  simp only [String.toList_append, List.append_assoc, append_lt_append_iff]
  rw [append_lt_append_iff_or hlen, pad20_lt_iff ha hb, String.toList_inj, pad20_inj, String.lt_iff]

/-- Under one prefix a key comes before another by the stamps' order, but for negative ones. -/
theorem filedUnder_lt_iff {p i j : String} {a b : ℤ} (ha : -2 ^ 63 ≤ a ∧ a < 2 ^ 63)
    (hb : -2 ^ 63 ≤ b ∧ b < 2 ^ 63) :
    p ++ pad20 a ++ ":" ++ i < p ++ pad20 b ++ ":" ++ j ↔ StampedBefore a b ∨ a = b ∧ i < j := by
  have htail : ":" ++ i < ":" ++ j ↔ i < j := by
    rw [String.lt_iff, String.toList_append, String.toList_append, append_lt_append_iff, String.lt_iff]
  have hassoc (t : ℤ) (i : String) : p ++ pad20 t ++ ":" ++ i = p ++ pad20 t ++ (":" ++ i) := String.append_assoc
  rw [hassoc, hassoc, stamped_lt_iff ha hb, htail]

end Variance
