import LineScript.Proofs.NumericText
import LineScript.Proofs.WholeNumber

set_option autoImplicit false

/-!
# Printed whole numbers

A whole number is printed digit by digit if it is a safe integer, or a double below the plain
limit, which is far past the safe one.  Two readers take such a text back.  An expression
reads a numeral as an integer as long as it is short, and a comparison reads every numeral as
a double.

Proved: rounding keeps what is the value of a double (`Double.IsRounded.value?_eq`), so that
both readers give a number of the value that was printed, and an expression gives back the
integer itself (`Value.written_read_back`).
-/

namespace LineScript

/-! ## Rounding what is exact -/

namespace Number

theorem Extended.ofRat_inj {p q : ℚ} : Extended.ofRat p = .ofRat q ↔ p = q := by
  rw [ofRat, ofRat, WithBot.coe_inj, WithTop.coe_inj]

/-- A double with a rational value is finite. -/
theorem exists_finite_of_value? {x : Double} {q : ℚ}
    (h : (double x).value? = some (.ofRat q)) :
    ∃ negative size, x = .finite negative size ∧
      q * Double.unitsPerOne = Double.signed negative size := by
  cases x with
  | nan => exact absurd h (by simp [value?])
  | infinite negative =>
    have hend := Option.some.inj h
    split at hend
    · exact absurd hend (Extended.bot_lt_ofRat q).ne
    · exact absurd hend (Extended.ofRat_lt_top q).ne'
  | finite negative size =>
    refine ⟨negative, size, rfl, ?_⟩
    rw [← Extended.ofRat_inj.mp (Option.some.inj h),
      div_mul_cancel₀ _ unitsPerOne_pos_rat.ne']

end Number

namespace Double

theorem value?_of_extent? {x : Double} {u : Int} (h : x.extent? = some u)
    (hu : u.natAbs < overflowUnits) :
    (Number.double x).value? = some (.ofRat (u / unitsPerOne)) := by
  cases x with
  | nan => exact absurd h (by simp [extent?])
  | infinite negative =>
    have hend := Option.some.inj h
    split at hend
    · omega
    · omega
  | finite negative size =>
    obtain rfl := Option.some.inj h
    rfl

/-- What is the value of a double already is not changed by rounding. -/
theorem IsRounded.value?_eq {x y : Double} {negative : Bool} {q : ℚ} (hx : x.IsRounded negative q)
    (hy : (Number.double y).value? = some (.ofRat q)) :
    (Number.double x).value? = some (.ofRat q) := by
  obtain ⟨s, size, rfl, hq⟩ := Number.exists_finite_of_value? hy
  obtain ⟨u, hu, hnearest⟩ := hx.exists_extent
  have hexact : gap q (signed s size) = 0 := by rw [gap, hq, sub_self, abs_zero]
  have hgap : gap q u = 0 :=
    le_antisymm (hexact ▸ (hnearest (.finite s size) _ rfl).1) (abs_nonneg _)
  have hsame : u = signed s size := by
    rwa [gap, hq, abs_eq_zero, sub_eq_zero, Int.cast_inj] at hgap
  subst hsame
  rw [value?_of_extent? hu (natAbs_signed s size ▸ size.bounded), ← hq,
    mul_div_cancel_right₀ _ Number.unitsPerOne_pos_rat.ne']

end Double

/-! ## Numerals -/

namespace Text

theorem isDigits_ofNat (n : Nat) : (ofNat n).IsDigits :=
  ⟨ofNat_ne_nil n, List.all_eq_true.mpr fun _ => isDigit_of_mem_ofNat⟩

/-- The numeral of an integer denotes the integer. -/
theorem isWhole_ofInt (n : Int) : (ofInt n).IsWhole n := by
  cases n with
  | ofNat n =>
    have hwhole := IsWhole.unsigned (isDigits_ofNat n)
    rwa [value_ofNat] at hwhole
  | negSucc n =>
    have hwhole := IsWhole.negative (isDigits_ofNat (n + 1))
    rwa [value_ofNat] at hwhole

/-- A safe integer has at most sixteen digits. -/
theorem length_ofInt_le {n : Int} (h : n.natAbs ≤ Number.safeLimit) : (ofInt n).length ≤ 20 := by
  have hdigits : ∀ m ≤ Number.safeLimit, (ofNat m).length ≤ 16 := fun m hm =>
    (Nat.length_toDigits_le_iff (by decide) (by decide)).mpr (Nat.lt_of_le_of_lt hm (by decide))
  cases n with
  | ofNat n => exact Nat.le_trans (hdigits n h) (by decide)
  | negSucc n =>
    have hlength := hdigits (n + 1) h
    rw [ofInt, List.length_cons]
    omega

/-- A whole number is a numeric text of the same value. -/
theorem IsWhole.exists_isNumeric {t : Text} {n : Int} (h : t.IsWhole n) :
    ∃ negative q, t.IsNumeric negative q ∧ (if negative then -q else q) = (n : ℚ) := by
  cases h with
  | unsigned hdigits =>
    have hnumeric := IsNumeric.intro .absent (.whole hdigits) .absent
    rw [List.append_nil, zpow_zero, mul_one] at hnumeric
    exact ⟨false, _, hnumeric, by simp⟩
  | negative hdigits =>
    have hnumeric := IsNumeric.intro .minus (.whole hdigits) .absent
    rw [List.append_nil, zpow_zero, mul_one] at hnumeric
    exact ⟨true, _, hnumeric, by simp⟩

theorem IsWhole.strip_eq {t : Text} {n : Int} (h : t.IsWhole n) : strip t = t := by
  obtain ⟨negative, digits, hdigits, rfl, -⟩ := h.exists_literal
  exact Decimal.Literal.strip_text_ofWhole negative hdigits

end Text

theorem Decimal.Literal.toRat_decimal_ofWhole (negative : Bool) (digits : Text) :
    (ofWhole negative digits).decimal.toRat = (ofWhole negative digits).wholeValue := by
  rw [Number.decimal_ofWhole, toRat, magnitude, zpow_zero, mul_one, wholeValue]
  cases negative with
  | false => simp [ofWhole]
  | true => simp [ofWhole]

/-! ## Readers -/

section

variable {t : Text} {n : Int} {x : Double} (h : t.IsWhole n)
  (hx : (Number.double x).value? = some (.ofRat n))
include h hx

/-- If the integer is the value of a double, a comparison reads its numeral exactly. -/
theorem Value.value?_textNumber : (textNumber t).value? = some (.ofRat n) := by
  obtain ⟨negative, q, hnumeric, hq⟩ := h.exists_isNumeric
  obtain ⟨d, hd, rfl, rfl⟩ := Decimal.ofNumericText?_iff.mp hnumeric
  have hrounded := Double.ofDecimal_isRounded d
  rw [Decimal.toRat, hq] at hrounded
  rw [← h.strip_eq] at hd
  rw [textNumber_of_some hd]
  exact hrounded.value?_eq hx

/-- And so does an expression. -/
theorem Expression.eval_whole_value? (env : Environment) (budget : Nat) :
    ∃ y, eval env (budget + 1) t = .ok (.num y) ∧ y.value? = some (.ofRat n) := by
  obtain ⟨negative, digits, hdigits, rfl, rfl⟩ := h.exists_literal
  refine ⟨_, eval_ofWhole env budget negative hdigits, ?_⟩
  have hmatches := Number.ofLiteral_matches
    (Decimal.Literal.ofWhole negative digits).text.length (.ofWhole negative digits)
  have hrounded := Double.ofDecimal_isRounded (Decimal.Literal.ofWhole negative digits).decimal
  rw [Decimal.Literal.toRat_decimal_ofWhole] at hrounded
  rw [Number.value?_eq, hmatches.place?_eq, ← Number.value?_eq]
  exact hrounded.value?_eq hx

end

/-- A safe integer is read back as it is, since its numeral is short. -/
theorem Expression.eval_ofInt {n : Int} (h : n.natAbs ≤ Number.safeLimit) (env : Environment)
    (budget : Nat) : eval env (budget + 1) (Text.ofInt n) = .ok (.num (.int n)) := by
  obtain ⟨negative, digits, hdigits, htext, hvalue⟩ := (Text.isWhole_ofInt n).exists_literal
  have hlength := Text.length_ofInt_le h
  rw [htext] at hlength ⊢
  rw [eval_ofWhole env budget negative hdigits, Number.ofLiteral_short negative digits hlength,
    ← hvalue, Number.normalize_of_safe h]

/-! ## Reading what was printed -/

/-- A whole number that is printed digit by digit, and the integer that is its value: a safe
integer, or a double below the plain limit. -/
inductive Number.IsPlain : Number → Int → Prop
  | int {n : Int} (h : n.natAbs ≤ 2 ^ 53 - 1) : IsPlain (.int n) n
  | double {x : Double} {n : Int} (hvalue : (Number.double x).value? = some (.ofRat n))
      (h : n.natAbs < 10 ^ 21) : IsPlain (.double x) n

namespace Number.IsPlain

variable {v : Number} {n : Int} (h : v.IsPlain n)
include h

theorem value?_eq : v.value? = some (.ofRat n) := by
  cases h with
  | int h => rfl
  | double hvalue h => exact hvalue

/-- The value is that of a double. -/
theorem exists_double : ∃ x, (Number.double x).value? = some (.ofRat n) := by
  cases h with
  | int h =>
    have hplace := place?_asDouble (n := .int n) h
    refine ⟨.ofInt n, ?_⟩
    rw [Number.value?_eq]
    exact (congrArg _ hplace).trans (Number.value?_eq (.int n)).symm
  | double hvalue h => exact ⟨_, hvalue⟩

/-- It is printed like the integer. -/
theorem written_eq : v.written = .ok (Text.ofInt n) := by
  cases h with
  | int h =>
    have hmatches : (Number.int n).Matches (.ofInt n) := ⟨h, Double.alike_refl _⟩
    rw [hmatches.written_eq, writtenDouble_ofInt h]
  | double hvalue h =>
    obtain ⟨negative, size, rfl, hsigned⟩ := exists_finite_of_value? hvalue
    rw [written, writtenDouble_whole _ h]
    exact_mod_cast hsigned.symm

end Number.IsPlain

/-- The text of a whole number is read back, by an expression in any environment and by a
comparison, as a number of the same value, and by the expression as the same integer if it
was one. -/
theorem Value.written_read_back {v : Number} {n : Int} (h : v.IsPlain n) (env : Environment)
    (budget : Nat) :
    ∃ t, (Value.num v).written = .ok t ∧
      (∃ y, Expression.eval env (budget + 1) t = .ok (.num y) ∧ y.same v = true ∧
        ∀ m, v = .int m → y = .int m) ∧
      (Value.text t).asNumber.same v = true := by
  have hwhole := Text.isWhole_ofInt n
  obtain ⟨x, hx⟩ := h.exists_double
  have hsame : ∀ y : Number, y.value? = some (.ofRat n) → y.same v = true := fun y hy =>
    (Number.same_iff y v).mpr ⟨_, _, hy, h.value?_eq, rfl⟩
  refine ⟨Text.ofInt n, h.written_eq, ?_, hsame _ (value?_textNumber hwhole hx)⟩
  obtain ⟨y, hy, hvalue⟩ := Expression.eval_whole_value? hwhole hx env budget
  refine ⟨y, hy, hsame y hvalue, ?_⟩
  rintro m rfl
  cases h with
  | int h =>
    have heval := Expression.eval_ofInt h env budget
    exact Value.num.inj (Except.ok.inj (hy.symm.trans heval))

/-- The magnitude of a double whose numeral is too long to be read as an integer. -/
def largeSize : Double.Magnitude where
  units := 10 ^ 20 * Double.unitsPerOne
  fits := ⟨5 ^ 20, 1094, by decide, by decide +kernel⟩
  bounded := by decide +kernel

theorem Number.isPlain_largeSize : (double (.finite true largeSize)).IsPlain (-10 ^ 20) := by
  have hsigned : Double.signed true largeSize = -10 ^ 20 * Double.unitsPerOne := by
    rw [Double.signed, if_pos rfl, largeSize, Int.natCast_mul, Int.neg_mul]
    rfl
  refine .double ?_ (by decide)
  rw [value?, hsigned, Int.cast_mul, Int.cast_natCast,
    mul_div_cancel_right₀ _ unitsPerOne_pos_rat.ne']

theorem Value.whole_numbers_read_back :
    (Number.int (- (2 ^ 53 - 1))).IsPlain (- (2 ^ 53 - 1)) ∧
    (∃ t, (Value.int (- (2 ^ 53 - 1))).written = .ok t ∧
      Expression.eval .empty nestingLimit t = .ok (.int (- (2 ^ 53 - 1)))) ∧
    (Number.double (.finite true largeSize)).IsPlain (-10 ^ 20) ∧
    ∃ t y, (Value.num (.double (.finite true largeSize))).written = .ok t ∧
      Expression.eval .empty nestingLimit t = .ok (.num y) ∧
      y.same (.double (.finite true largeSize)) = true ∧
      (Value.text t).asNumber.same (.double (.finite true largeSize)) = true := by
  have hint : (Number.int (- (2 ^ 53 - 1))).IsPlain (- (2 ^ 53 - 1)) := .int (by decide)
  have hdouble := Number.isPlain_largeSize
  obtain ⟨t, ht, ⟨y, hy, -, hsame⟩, -⟩ := written_read_back hint .empty 991
  obtain ⟨u, hu, ⟨z, hz, heval⟩, htext⟩ := written_read_back hdouble .empty 991
  refine ⟨hint, ⟨t, ht, ?_⟩, hdouble, u, z, hu, hz, heval.1, htext⟩
  rw [hsame _ rfl] at hy
  exact hy

end LineScript
