import LineScript.Value
import LineScript.Proofs.DecimalRounding
import LineScript.Proofs.Literal
import Mathlib.Data.List.Basic

set_option autoImplicit false

/-!
# Numeric texts

A comparison reads a text as a number if the text, without the blanks around it, is an
optional sign, digits with a point among them or none, and an optional power of ten.  The
grammar is stated here as a relation between texts and the numbers that they denote, which
mentions no reader:

    Text.IsNumeric t negative q     t denotes q, or -q after a minus sign

Proved: the reader accepts what the grammar derives, with the number that it derives, and
nothing else (`Decimal.ofNumericText?_iff`).  So a text is compared as zero if it is blank,
as its number correctly rounded if it is numeric, and as no number in any other case
(`Value.asNumber_text`).
-/

namespace LineScript

/-! ## The grammar -/

namespace Text

/-- An optional sign, and whether it is a minus. -/
inductive IsSign : Text → Bool → Prop
  | absent : IsSign [] false
  | plus : IsSign ['+'] false
  | minus : IsSign ['-'] true

/-- Digits with a point before, among or after them, or without one, and the number that they
denote.  A point alone is none. -/
inductive IsMantissa : Text → ℚ → Prop
  | whole {digits : Text} (h : digits.IsDigits) : IsMantissa digits (value digits)
  | pointed {digits fraction : Text} (h : digits.IsDigits)
      (hfraction : fraction.all Char.isDigit = true) :
      IsMantissa (digits ++ '.' :: fraction)
        (value digits + value fraction / 10 ^ fraction.length)
  | fraction {digits : Text} (h : digits.IsDigits) :
      IsMantissa ('.' :: digits) (value digits / 10 ^ digits.length)

/-- An optional power of ten, and its exponent. -/
inductive IsPower : Text → Int → Prop
  | absent : IsPower [] 0
  | present {mark : Char} {sign digits : Text} {negative : Bool} (hmark : mark = 'e' ∨ mark = 'E')
      (hsign : IsSign sign negative) (h : digits.IsDigits) :
      IsPower (mark :: (sign ++ digits))
        (if negative then - (value digits : Int) else value digits)

/-- A numeric text, whether it has a minus sign, and the number that the rest of it denotes. -/
inductive IsNumeric : Text → Bool → ℚ → Prop
  | intro {sign mantissa power : Text} {negative : Bool} {m : ℚ} {e : Int}
      (hsign : IsSign sign negative) (hmantissa : IsMantissa mantissa m)
      (hpower : IsPower power e) : IsNumeric (sign ++ (mantissa ++ power)) negative (m * 10 ^ e)

/-- A mantissa starts with a digit or a point. -/
theorem IsMantissa.head?_ne {t : Text} {m : ℚ} (h : IsMantissa t m) {c : Char}
    (hdigit : c.isDigit = false) (hpoint : c ≠ '.') (rest : Text) :
    (t ++ rest).head? ≠ some c := by
  cases h with
  | whole h =>
    rw [List.head?_append_of_ne_nil _ h.ne_nil]
    exact h.head?_ne hdigit
  | pointed h hfraction =>
    rw [List.append_assoc, List.head?_append_of_ne_nil _ h.ne_nil]
    exact h.head?_ne hdigit
  | fraction h => exact fun hhead => hpoint (Option.some.inj hhead).symm

/-- What may follow a mantissa does not continue it. -/
theorem IsPower.head?_ne {t : Text} {e : Int} (h : IsPower t e) :
    t.head?.any Char.isDigit = false ∧ t.head? ≠ some '.' := by
  cases h with
  | absent => exact ⟨rfl, by simp⟩
  | present hmark hsign h =>
    rcases hmark with rfl | rfl
    · exact ⟨rfl, by simp⟩
    · exact ⟨rfl, by simp⟩

/-! ## Values -/

/-- A run of digits gains a factor of ten for each digit that follows it. -/
theorem value_append (digits fraction : Text) :
    value (digits ++ fraction) = value digits * 10 ^ fraction.length + value fraction := by
  rw [value, Nat.ofDigitChars_append, Nat.ofDigitChars_eq_ofDigitChars_zero, Nat.mul_comm]
  rfl

/-- The same with the point that stands between the two. -/
theorem value_div (digits fraction : Text) :
    (value (digits ++ fraction) / 10 ^ fraction.length : ℚ) =
      value digits + value fraction / 10 ^ fraction.length := by
  have hpos : (10 : ℚ) ^ fraction.length ≠ 0 := pow_ne_zero _ (by decide)
  rw [value_append, Nat.cast_add, Nat.cast_mul, Nat.cast_pow, add_div]
  exact congrArg (· + _) (mul_div_cancel_right₀ _ hpos)

end Text

/-! ## Reading -/

namespace Decimal

open Text (IsSign IsMantissa IsPower IsNumeric)

theorem takeSign_sound (t : Text) :
    ∃ sign, IsSign sign (takeSign t).1 ∧ t = sign ++ (takeSign t).2 := by
  unfold takeSign
  split
  · exact ⟨['-'], .minus, rfl⟩
  · exact ⟨['+'], .plus, rfl⟩
  · exact ⟨[], .absent, rfl⟩

theorem takeSign_complete {sign rest : Text} {negative : Bool} (h : IsSign sign negative)
    (hminus : rest.head? ≠ some '-') (hplus : rest.head? ≠ some '+') :
    takeSign (sign ++ rest) = (negative, rest) := by
  cases h with
  | absent => exact takeSign_of_head hminus hplus
  | plus => rfl
  | minus => rfl

theorem exponent?_eq_some_iff {t : Text} {e : Int} : exponent? t = some e ↔ IsPower t e := by
  constructor
  · intro h
    cases t with
    | nil =>
      obtain rfl := Option.some.inj h
      exact .absent
    | cons mark rest =>
      obtain ⟨sign, hsign, hrest⟩ := takeSign_sound rest
      rw [exponent?] at h
      generalize takeSign rest = parts at h hsign hrest
      obtain ⟨negative, digits⟩ := parts
      simp only at h hsign hrest
      split at h
      · rename_i hpower
        obtain rfl := Option.some.inj h
        rw [hrest]
        exact .present hpower.1 hsign ⟨hpower.2.1, hpower.2.2⟩
      · exact absurd h (by simp)
  · intro h
    cases h with
    | absent => rfl
    | present hmark hsign h =>
      rw [exponent?, takeSign_complete hsign (h.head?_ne rfl) (h.head?_ne rfl)]
      simp only [if_pos (And.intro hmark (And.intro h.ne_nil h.all_digits))]

/-- The digits before and after the point, where there are any, are a mantissa. -/
theorem isMantissa_of_span {body whole afterWhole fraction rest : Text}
    (hwhole : Text.spanDigits body = (whole, afterWhole))
    (hfraction : takeFraction afterWhole = (fraction, rest))
    (hne : ¬ (whole = [] ∧ fraction = [])) :
    ∃ mantissa, body = mantissa ++ rest ∧
      IsMantissa mantissa (Text.value (whole ++ fraction) / 10 ^ fraction.length) := by
  have hbody := Text.spanDigits_append body
  have hall := Text.all_isDigit_spanDigits body
  rw [hwhole] at hbody hall
  by_cases hpoint : afterWhole.head? = some '.'
  · obtain ⟨digits, rfl⟩ := List.head?_eq_some_iff.mp hpoint
    have hdigits := Text.spanDigits_append digits
    have hfractionAll := Text.all_isDigit_spanDigits digits
    rw [takeFraction] at hfraction
    rw [hfraction] at hdigits hfractionAll
    by_cases hnone : whole = []
    · subst hnone
      refine ⟨'.' :: fraction, ?_, .fraction ⟨fun hnil => hne ⟨rfl, hnil⟩, hfractionAll⟩⟩
      rw [← hbody, ← hdigits]
      rfl
    · refine ⟨whole ++ '.' :: fraction, ?_, ?_⟩
      · rw [← hbody, ← hdigits, List.append_assoc]
        rfl
      · rw [Text.value_div]
        exact .pointed ⟨hnone, hall⟩ hfractionAll
  · obtain ⟨rfl, rfl⟩ := Prod.mk.inj ((takeFraction_of_head hpoint).symm.trans hfraction)
    refine ⟨whole, hbody.symm, ?_⟩
    rw [List.append_nil, List.length_nil, pow_zero, div_one]
    exact .whole ⟨fun hnil => hne ⟨hnil, rfl⟩, hall⟩

theorem span_of_isMantissa {mantissa rest : Text} {m : ℚ} (h : IsMantissa mantissa m)
    (hdigit : rest.head?.any Char.isDigit = false) (hpoint : rest.head? ≠ some '.') :
    ∃ whole afterWhole fraction, Text.spanDigits (mantissa ++ rest) = (whole, afterWhole) ∧
      takeFraction afterWhole = (fraction, rest) ∧ ¬ (whole = [] ∧ fraction = []) ∧
      m = Text.value (whole ++ fraction) / 10 ^ fraction.length := by
  cases h with
  | whole h =>
    refine ⟨mantissa, rest, [], Text.spanDigits_digits_append h.all_digits hdigit,
      takeFraction_of_head hpoint, fun hnil => h.ne_nil hnil.1, ?_⟩
    rw [List.append_nil, List.length_nil, pow_zero, div_one]
  | @pointed digits fraction h hfraction =>
    refine ⟨digits, '.' :: (fraction ++ rest), fraction, ?_,
      Text.spanDigits_digits_append hfraction hdigit, fun hnil => h.ne_nil hnil.1,
      (Text.value_div digits fraction).symm⟩
    rw [List.append_assoc]
    exact Text.spanDigits_digits_append h.all_digits rfl
  | @fraction digits h =>
    exact ⟨[], '.' :: (digits ++ rest), digits, rfl,
      Text.spanDigits_digits_append h.all_digits hdigit, fun hnil => h.ne_nil hnil.2, rfl⟩

theorem magnitude_ofParts (negative : Bool) (whole fraction : Text) (e : Int) :
    (ofParts negative whole fraction e).magnitude =
      Text.value (whole ++ fraction) / 10 ^ fraction.length * 10 ^ e := by
  rw [magnitude, ofParts, zpow_sub₀ (by decide), zpow_natCast, div_mul_eq_mul_div,
    mul_div_assoc]

/-- The numeric texts are those that the reader accepts, and they denote what it reads. -/
theorem ofNumericText?_iff {t : Text} {negative : Bool} {q : ℚ} :
    IsNumeric t negative q ↔
      ∃ d, ofNumericText? t = some d ∧ d.negative = negative ∧ d.magnitude = q := by
  constructor
  · rintro ⟨hsign, hmantissa, hpower⟩
    rename_i sign mantissa power m e
    have hsigned : takeSign (sign ++ (mantissa ++ power)) = (negative, mantissa ++ power) :=
      takeSign_complete hsign (hmantissa.head?_ne rfl (by decide) power)
        (hmantissa.head?_ne rfl (by decide) power)
    obtain ⟨whole, afterWhole, fraction, hwhole, hfraction, hne, rfl⟩ :=
      span_of_isMantissa hmantissa hpower.head?_ne.1 hpower.head?_ne.2
    refine ⟨ofParts negative whole fraction e, ?_, rfl, magnitude_ofParts _ _ _ _⟩
    simp only [ofNumericText?, hsigned, hwhole, hfraction, if_neg hne,
      exponent?_eq_some_iff.mpr hpower, Option.map_some]
  · rintro ⟨d, hd, rfl, rfl⟩
    obtain ⟨sign, hsign, ht⟩ := takeSign_sound t
    rw [ofNumericText?] at hd
    split at hd
    rename_i negative body hsigned
    split at hd
    rename_i whole afterWhole hwhole
    split at hd
    rename_i fraction rest hfraction
    split at hd
    · exact absurd hd (by simp)
    · rename_i hne
      obtain ⟨e, hpower, rfl⟩ := Option.map_eq_some_iff.mp hd
      obtain ⟨mantissa, rfl, hmantissa⟩ := isMantissa_of_span hwhole hfraction hne
      rw [hsigned] at hsign ht
      rw [ht, magnitude_ofParts]
      exact .intro hsign hmantissa (exponent?_eq_some_iff.mp hpower)

end Decimal

/-- What the grammar derives is numeric. -/
theorem Text.IsNumeric.isNumericText {t : Text} {negative : Bool} {q : ℚ}
    (h : t.IsNumeric negative q) : Decimal.isNumericText t = true := by
  obtain ⟨d, hd, -⟩ := Decimal.ofNumericText?_iff.mp h
  rw [← Decimal.isSome_ofNumericText?, hd]
  rfl

/-! ## Texts in comparisons -/

namespace Value

theorem textNumber_of_blank {s : Text} (h : Text.strip s = []) : textNumber s = .int 0 := by
  rw [textNumber_eq, if_pos h]

theorem textNumber_of_some {s : Text} {d : Decimal}
    (h : Decimal.ofNumericText? (Text.strip s) = some d) :
    textNumber s = .double (.ofDecimal d) := by
  have hne : Text.strip s ≠ [] := by
    intro hnil
    have hnone : Decimal.ofNumericText? (Text.strip s) = none := by rw [hnil]; rfl
    exact absurd (hnone.symm.trans h) (by simp)
  simp only [textNumber_eq, if_neg hne, h]

theorem textNumber_of_none {s : Text} (hne : Text.strip s ≠ [])
    (h : Decimal.ofNumericText? (Text.strip s) = none) : textNumber s = .double .nan := by
  simp only [textNumber_eq, if_neg hne, h]

end Value

theorem Decimal.ofNumericText?_eq_none {t : Text}
    (h : ∀ negative q, ¬ t.IsNumeric negative q) : ofNumericText? t = none := by
  refine Option.eq_none_iff_forall_ne_some.mpr fun d hd => ?_
  exact h d.negative d.magnitude (ofNumericText?_iff.mpr ⟨d, hd, rfl, rfl⟩)

/-- A text is compared as zero if it is blank, as the number that it denotes, correctly
rounded, if it is numeric, and as no number in any other case, such as that a character
stands in it that no numeric text has. -/
theorem Value.asNumber_text (s : Text) :
    (Text.strip s = [] → (Value.text s).asNumber = .int 0) ∧
    (∀ negative q, (Text.strip s).IsNumeric negative q →
      ∃ x : Double, (Value.text s).asNumber = .double x ∧ x ≠ .nan ∧
        (∀ y : Double, y.IsRounded negative (if negative then -q else q) ↔ y = x) ∧
        (x = .infinite negative ↔ (2 : ℚ) ^ 1024 - 2 ^ 970 ≤ q)) ∧
    (Text.strip s ≠ [] → (∀ negative q, ¬ (Text.strip s).IsNumeric negative q) →
      (Value.text s).asNumber = .double .nan) ∧
    (∀ c ∈ Text.strip s, Text.isNumericChar c = false →
      (Value.text s).asNumber = .double .nan) := by
  have hother : Text.strip s ≠ [] → (∀ negative q, ¬ (Text.strip s).IsNumeric negative q) →
      (Value.text s).asNumber = .double .nan := fun hne h =>
    textNumber_of_none hne (Decimal.ofNumericText?_eq_none h)
  refine ⟨textNumber_of_blank, ?_, hother, ?_⟩
  · intro negative q h
    obtain ⟨d, hd, rfl, rfl⟩ := Decimal.ofNumericText?_iff.mp h
    have hrounded := Double.ofDecimal_isRounded d
    refine ⟨.ofDecimal d, textNumber_of_some hd, ?_, ?_, Double.ofDecimal_eq_infinite_iff d⟩
    · intro hnan
      exact absurd (hnan ▸ hrounded.negative?_eq) (by simp [Double.negative?])
    · intro y
      exact ⟨fun hy => hy.unique hrounded, fun hy => hy ▸ hrounded⟩
  · intro c hc hchar
    refine hother (List.ne_nil_of_mem hc) fun negative q h => ?_
    have hnumeric := Decimal.isNumericChar_of_isNumericText h.isNumericText c hc
    exact absurd (hchar.symm.trans hnumeric) Bool.false_ne_true

/-- A number with every part that it can have, between blanks. -/
def paddedNumber : Text := "\t-.5e+02\u3000".toList

theorem Text.isNumeric_strip_paddedNumber : (strip paddedNumber).IsNumeric true 50 := by
  have hmantissa : IsMantissa ".5".toList (value ['5'] / 10 ^ 1) := .fraction (by decide)
  have hpower : IsPower "e+02".toList 2 :=
    .present (.inl rfl) .plus (show IsDigits ['0', '2'] by decide)
  have hvalue : (value ['5'] / 10 ^ 1 * 10 ^ (2 : Int) : ℚ) = 50 := by
    rw [show value ['5'] = 5 by decide]
    norm_num
  exact hvalue ▸ IsNumeric.intro .minus hmantissa hpower

/-- Texts that other grammars take for numbers. -/
def foreignNumbers : List Text :=
  ["1_0", "\u0663", "1 0", "0x1e", "inf", "-nan", "Infinity"].map String.toList

theorem Value.texts_compared :
    (Text.strip paddedNumber).IsNumeric true 50 ∧
    (∃ x : Double, (Value.text paddedNumber).asNumber = .double x ∧ x.IsRounded true (-50)) ∧
    (Value.text " \n".toList).asNumber = .int 0 ∧
    (Value.text "1.2.3".toList).asNumber = .double .nan ∧
    ∀ t ∈ foreignNumbers, (Value.text t).asNumber = .double .nan := by
  obtain ⟨-, hnumeric, -⟩ := asNumber_text paddedNumber
  obtain ⟨x, hx, -, hrounded, -⟩ := hnumeric true 50 Text.isNumeric_strip_paddedNumber
  refine ⟨Text.isNumeric_strip_paddedNumber, ⟨x, hx, (hrounded x).mpr rfl⟩,
    (asNumber_text " \n".toList).1 (by decide), ?_, ?_⟩
  · have hnone : Decimal.ofNumericText? (Text.strip "1.2.3".toList) = none := by decide
    refine (asNumber_text "1.2.3".toList).2.2.1 (by decide) fun negative q h => ?_
    obtain ⟨d, hd, -⟩ := Decimal.ofNumericText?_iff.mp h
    exact absurd (hnone.symm.trans hd) (by simp)
  · intro t ht
    have hforeign : (foreignNumbers.all fun t =>
        (Text.strip t).any fun c => !Text.isNumericChar c) = true := by decide
    obtain ⟨c, hc, hchar⟩ := List.any_eq_true.mp (List.all_eq_true.mp hforeign t ht)
    exact (asNumber_text t).2.2.2 c hc (by simpa using hchar)

end LineScript
