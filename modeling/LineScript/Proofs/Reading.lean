import LineScript.Number
import LineScript.Proofs.Literal
import Mathlib.Data.List.Basic
import Mathlib.Data.List.TakeWhile

set_option autoImplicit false

/-!
# What the readers make of literals

A text is asked whether it is a literal by its shape alone, and is then given to the reader
of integers or to that of doubles.  These readers take many texts that are no literals and
refuse others; a literal is among those that they take.

Proved: digits that are not too many are read as the integer that they denote, after a sign
or without one (`Integer.ofText_signed`); a literal is a numeric text
(`Decimal.Literal.ofNumericText?_text`); so every literal is read, as the number that it
denotes (`Number.readLiteral_of_ofText?`).
-/

namespace LineScript

/-! ## Integers -/

namespace Integer

theorem digitsValue_eq_value {digits : Text} (h : ∀ c ∈ digits, c.isDigit = true) :
    digitsValue digits = Text.value digits := by
  refine List.foldl_ext _ _ _ fun n c hc => ?_
  rw [Text.digitValue?_of_isDigit (h c hc)]
  rfl

theorem isSpacing_of_isDigit {c : Char} (h : c.isDigit = true) : isSpacing c = false := by
  have hc := Text.bounds_of_isDigit h
  rw [isSpacing, Text.isBlank_eq_false (by omega), Bool.false_and]

theorem isInside_of_isDigit {c : Char} (h : c.isDigit = true) : isInside c = true := by
  rw [isInside, Text.digitValue?_of_isDigit h]
  simp

/-- After a sign, or none, digits are read as the number that they denote, unless there are
too many. -/
theorem ofText_signed {t digits : Text} {negative : Bool} (hstart : t.dropWhile isSpacing = t)
    (hsign : Decimal.takeSign t = (negative, digits)) (h : digits.IsDigits)
    (hlength : digits.length ≤ numeralLimit) :
    ofText t = .ok (if negative then - (Text.value digits : Int) else Text.value digits) := by
  have hall : ∀ c ∈ digits, c.isDigit = true := List.all_eq_true.mp h.all_digits
  have hinside : ∀ c ∈ digits, isInside c = true := fun c hc => isInside_of_isDigit (hall c hc)
  have htake : digits.takeWhile isInside = digits := List.takeWhile_eq_self_iff.mpr hinside
  have hdrop : digits.dropWhile isInside = [] := List.dropWhile_eq_nil_iff.mpr hinside
  have hgroups : digits.splitOn '_' = [digits] :=
    List.splitOn_eq_singleton fun hmem => absurd (hall '_' hmem) (by decide)
  rw [ofText, hstart, hsign]
  simp only [htake, hdrop, hgroups, List.flatten_singleton]
  rw [if_neg (by simpa using h.ne_nil.symm), if_neg (Nat.not_lt.mpr hlength), if_pos List.all_nil,
    digitsValue_eq_value hall]

/-- Digits are read as the number that they denote, unless there are too many. -/
theorem ofText_digits {digits : Text} (h : digits.IsDigits)
    (hlength : digits.length ≤ numeralLimit) : ofText digits = .ok (Text.value digits) := by
  have hstart : digits.dropWhile isSpacing = digits := by
    obtain ⟨d, ds, rfl⟩ := List.exists_cons_of_ne_nil h.ne_nil
    have hd := List.all_eq_true.mp h.all_digits d List.mem_cons_self
    exact List.dropWhile_cons_of_neg (by simp [isSpacing_of_isDigit hd])
  exact ofText_signed hstart
    (Decimal.takeSign_of_head (h.head?_ne rfl) (h.head?_ne rfl)) h hlength

/-- A numeral that is not too long is read as its number. -/
theorem ofText_ofNat {n : Nat} (h : (Text.ofNat n).length ≤ numeralLimit) :
    ofText (Text.ofNat n) = .ok n := by
  have hdigits : (Text.ofNat n).IsDigits :=
    ⟨Text.ofNat_ne_nil n, List.all_eq_true.mpr fun c hc => Text.isDigit_of_mem_ofNat hc⟩
  rw [ofText_digits hdigits h, Text.value_ofNat]

end Integer

/-! ## Literals -/

namespace Decimal.Literal

section

variable {l : Literal} (h : l.WellFormed)
include h

theorem takeSign_text : takeSign l.text = (l.negative, l.unsignedText) := by
  rw [text]
  cases l.negative with
  | true => rfl
  | false =>
    refine takeSign_of_head ?_ ?_
    · intro hhead
      exact absurd (isDigit_of_head?_unsignedText h hhead) (by decide)
    · intro hhead
      exact absurd (isDigit_of_head?_unsignedText h hhead) (by decide)

/-- A literal is a numeric text, and denotes the same decimal as one. -/
theorem ofNumericText?_text : ofNumericText? l.text = some l.decimal := by
  have hhead : (fractionText l.fraction).head?.any Char.isDigit = false := by
    cases l.fraction with
    | none => rfl
    | some digits => rfl
  have hspan : Text.spanDigits l.unsignedText = (l.whole, fractionText l.fraction) :=
    Text.spanDigits_digits_append h.whole.all_digits hhead
  have hfraction : takeFraction (fractionText l.fraction) = (l.fraction.getD [], []) := by
    cases hf : l.fraction with
    | none => rfl
    | some digits =>
      have hdigits := Text.spanDigits_digits_append (h.fraction digits hf).all_digits
        (show ([] : Text).head?.any Char.isDigit = false from rfl)
      rwa [List.append_nil] at hdigits
  simp only [ofNumericText?, takeSign_text h, hspan, hfraction]
  rw [if_neg fun hnil => h.whole.ne_nil hnil.1]
  rfl

/-- Without a fraction, a literal that is not too long is read as an integer. -/
theorem ofText_text (hwhole : l.fraction = none) (hlength : l.whole.length ≤ numeralLimit) :
    Integer.ofText l.text =
      .ok (if l.negative then - (Text.value l.whole : Int) else Text.value l.whole) := by
  have hstart : l.text.dropWhile Integer.isSpacing = l.text := by
    obtain ⟨c, cs, htext⟩ : ∃ c cs, l.text = c :: cs := by
      refine List.exists_cons_of_ne_nil fun hnil => ?_
      have hsigned := takeSign_text h
      rw [hnil] at hsigned
      have hunsigned := (Prod.mk.inj hsigned).2
      rw [unsignedText] at hunsigned
      exact h.whole.ne_nil (List.append_eq_nil_iff.mp hunsigned.symm).1
    have hc : Integer.isSpacing c = false := by
      rw [text] at htext
      split at htext
      · rw [← (List.cons.inj htext).1]
        decide
      · refine Integer.isSpacing_of_isDigit (isDigit_of_head?_unsignedText h ?_)
        rw [htext]
        rfl
    rw [htext, List.dropWhile_cons_of_neg (by simp [hc])]
  have hunsigned : l.unsignedText = l.whole := by
    rw [unsignedText, hwhole]
    exact List.append_nil _
  exact Integer.ofText_signed hstart (hunsigned ▸ takeSign_text h) h.whole hlength

/-- There is a point in a literal if there is a fraction. -/
theorem point_mem_text_iff : '.' ∈ l.text ↔ l.fraction.isSome = true := by
  have hwhole : '.' ∉ l.whole :=
    fun hmem => absurd (List.all_eq_true.mp h.whole.all_digits '.' hmem) (by decide)
  have hunsigned : '.' ∈ l.unsignedText ↔ l.fraction.isSome = true := by
    rw [unsignedText, List.mem_append]
    cases l.fraction with
    | none => simp [fractionText, hwhole]
    | some digits => simp [fractionText]
  rw [text]
  split
  · rw [List.mem_cons, hunsigned]
    simp
  · exact hunsigned

end

end Decimal.Literal

namespace Number

/-- The number that a literal of so many characters denotes.  A whole literal is an
integer, unless it is longer than any integer below the safe limit has to be. -/
def ofLiteral (length : Nat) (l : Decimal.Literal) : Number :=
  if l.fraction.isSome ∨ 20 < length then .double (.ofDecimal l.decimal)
  else normalize (.int (if l.negative then - (Text.value l.whole : Int) else Text.value l.whole))

/-- No literal is refused: it is read as the number that it denotes. -/
theorem readLiteral_of_ofText? {t : Text} {l : Decimal.Literal}
    (h : Decimal.Literal.ofText? t = some l) :
    readLiteral t = .ok (.ofLiteral t.length l) := by
  obtain ⟨wellFormed, rfl⟩ := Decimal.Literal.ofText?_eq_some_iff.mp h
  have hnumeric := Decimal.Literal.ofNumericText?_text wellFormed
  simp only [readLiteral, ofLiteral, Decimal.Literal.point_mem_text_iff wellFormed]
  split
  · have hmatch : Decimal.isNumericText l.text = true := by
      rw [← Decimal.isSome_ofNumericText?, hnumeric]
      rfl
    rw [readDouble, Double.ofText?_eq_of_isNumericText hmatch, hnumeric]
    rfl
  · rename_i hshort
    rw [not_or, Nat.not_lt] at hshort
    have hwhole : l.fraction = none := by simpa using hshort.1
    have hlength : l.whole.length ≤ numeralLimit := by
      have hinfix : l.whole.length ≤ l.text.length := by
        rw [Decimal.Literal.text, Decimal.Literal.unsignedText]
        split
        · simp only [List.length_cons, List.length_append]
          omega
        · simp only [List.length_append]
          omega
      have hlimit : 20 ≤ numeralLimit := by decide
      omega
    rw [readInteger, Decimal.Literal.ofText_text wellFormed hwhole hlength]
    rfl

end Number

end LineScript
