/-
An integer is read back from its digits.
-/
import AtMostOnce.Text.Decimal
import AtMostOnce.Word

namespace AtMostOnce.Text

/-- What holds of the ten digits holds of every digit. -/
theorem forall_digit {p : Char → Prop} (h : ∀ n < 10, p (Char.ofNat (48 + n))) {c : Char}
    (hc : c.isDigit = true) : p c := by
  have hrange : 48 ≤ c.toNat ∧ c.toNat ≤ 57 := by
    simpa [Char.isDigit, UInt32.le_iff_toNat_le] using hc
  have hdigit := h (c.toNat - 48) (by omega)
  rwa [Nat.add_sub_cancel' hrange.1, Char.ofNat_toNat] at hdigit

/-- A number is written with digits, at least one. -/
theorem toDigits_cases (n : Nat) :
    ∃ d ds, Nat.toDigits 10 n = d :: ds ∧ ∀ c ∈ d :: ds, c.isDigit = true := by
  obtain ⟨d, ds, hds⟩ := List.exists_cons_of_ne_nil (Nat.toDigits_ne_nil (b := 10) (n := n))
  refine ⟨d, ds, hds, fun c hc => ?_⟩
  exact Nat.isDigit_of_mem_toDigits (b := 10) (n := n) (by omega) (by omega) (hds ▸ hc)

/-- The text of an integer is digits, at least one, and perhaps a minus sign in front. -/
theorem integerText_cases (i : Int) : ∃ d ds, (∀ c ∈ d :: ds, c.isDigit = true) ∧
    (integerText i = d :: ds ∨ integerText i = '-' :: d :: ds) := by
  obtain ⟨d, ds, hds, hdigits⟩ := toDigits_cases i.natAbs
  refine ⟨d, ds, hdigits, ?_⟩
  unfold integerText
  rw [hds]
  split
  · exact .inr rfl
  · exact .inl rfl

end AtMostOnce.Text

namespace AtMostOnce.Word

/-- The digits of a number are read back as the number with the given sign. -/
theorem parse_toDigits (negative : Bool) (n : Nat) :
    ofDigits?.parse negative (Nat.toDigits 10 n) =
      if InRange (if negative then -(n : Int) else n) then
        some (if negative then -(n : Int) else n)
      else none := by
  have hne : (Nat.toDigits 10 n).isEmpty = false := by simp
  have hall : (Nat.toDigits 10 n).all Char.isDigit = true := by
    rw [List.all_eq_true]
    exact fun c hc => Nat.isDigit_of_mem_toDigits (by omega) (by omega) hc
  have hfold : ∀ (cs : List Char) (k : Nat),
      cs.foldl (fun (m : Int) d => m * 10 + ((d.toNat - '0'.toNat : Nat) : Int)) (k : Int) =
        (Nat.ofDigitChars 10 cs k : Int) := by
    intro cs
    induction cs with
    | nil => intro k; rfl
    | cons c cs ih =>
      intro k
      rw [List.foldl_cons, Nat.ofDigitChars_cons, ← ih]
      congr 1
      push_cast
      omega
  have hn := hfold (Nat.toDigits 10 n) 0
  rw [Nat.ofDigitChars_ten_toDigits] at hn
  unfold ofDigits?.parse
  rw [hne, hall]
  simp only [Bool.not_true, Bool.or_self, Bool.false_eq_true, if_false]
  rw [show (0 : Int) = ((0 : Nat) : Int) from rfl, hn]

theorem ofSignedDigits?_eq_parse {c : Char} {cs : List Char} (hc : c.isDigit = true) :
    ofSignedDigits? (c :: cs) = ofDigits?.parse false (c :: cs) := by
  have hplus : c ≠ '+' := by
    rintro rfl
    cases hc
  have hminus : c ≠ '-' := by
    rintro rfl
    cases hc
  unfold ofSignedDigits?
  split
  · rename_i h
    cases h
    exact absurd rfl hplus
  · unfold ofDigits?
    split
    · rename_i h
      cases h
      exact absurd rfl hminus
    · rfl

/-- **What an integer is written as is read back as the integer, if it is one of the range.** -/
theorem ofSignedDigits?_decimal (n : Int) :
    ofSignedDigits? (Text.decimal n).toList = if InRange n then some n else none := by
  rw [Text.decimal, String.toList_ofList, Text.integerText]
  by_cases hn : n < 0
  · have hneg : -(n.natAbs : Int) = n := by omega
    rw [if_pos hn]
    show ofDigits?.parse true (Nat.toDigits 10 n.natAbs) = _
    rw [parse_toDigits]
    simp only [if_true, hneg]
  · have hpos : (n.natAbs : Int) = n := by omega
    rw [if_neg hn]
    have hparse := parse_toDigits false n.natAbs
    simp only [Bool.false_eq_true, if_false, hpos] at hparse
    rw [← hparse]
    cases hd : Nat.toDigits 10 n.natAbs with
    | nil => exact absurd hd Nat.toDigits_ne_nil
    | cons c cs =>
      refine ofSignedDigits?_eq_parse ?_
      exact Nat.isDigit_of_mem_toDigits (b := 10) (n := n.natAbs) (by omega) (by omega)
        (by simp [hd])

end AtMostOnce.Word
