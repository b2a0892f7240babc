import LineScript.Double.Decimal
import LineScript.Proofs.CorrectRounding
import LineScript.Proofs.Order

set_option autoImplicit false

/-!
# The double of a decimal

A decimal is read as a double by rounding one quotient, except that a power of ten that is far
out of reach is settled without being computed.

Proved: the exceptions give what the quotient would give (`Double.ofDecimal_eq_ofRatio`), so the
double of a decimal is the decimal correctly rounded (`Double.ofDecimal_isRounded`), and it is
infinite exactly from the middle between the largest finite double and the next power of two on
(`Double.ofDecimal_eq_infinite_iff`).
-/

namespace LineScript

namespace Double

/-! ## Overflow -/

/-- A significand of 53 bits below a power of two is at most the largest one there. -/
theorem le_of_fits_of_lt {n t : Nat} (hn : Fits n) (hlt : n < Nat.pow 2 53 * Nat.pow 2 t) :
    n ≤ (Nat.pow 2 53 - 1) * Nat.pow 2 t := by
  obtain ⟨m, s, hm, rfl⟩ := hn
  rcases Nat.le_total s t with hs | hs
  · exact Nat.mul_le_mul (by omega) (Nat.pow_le_pow_right (by decide) hs)
  · rw [two_pow_eq_mul hs, ← Nat.mul_assoc] at hlt ⊢
    have hlt' := Nat.lt_of_mul_lt_mul_right hlt
    exact Nat.mul_le_mul_right _ (by omega)

/-- The largest significand of 53 bits is odd. -/
theorem not_fitsEven_largest (t : Nat) : ¬ FitsEven ((Nat.pow 2 53 - 1) * Nat.pow 2 t) := by
  rintro ⟨m, s, hm, heq⟩
  have hodd : (Nat.pow 2 53 - 1) % 2 = 1 := by decide
  rcases Nat.lt_trichotomy s t with hs | rfl | hs
  · -- with fewer bits after it a significand would have to have more of them
    rw [two_pow_eq_mul (Nat.le_of_lt hs), ← Nat.mul_assoc] at heq
    have hmore := Nat.eq_of_mul_eq_mul_right (Nat.two_pow_pos s) heq
    have htwo : 2 ≤ Nat.pow 2 (t - s) := Nat.le_self_pow (by omega) 2
    have hlarge := Nat.mul_le_mul_left (Nat.pow 2 53 - 1) htwo
    have hbits : Nat.pow 2 53 ≤ (Nat.pow 2 53 - 1) * 2 := by decide
    omega
  · have hsame := Nat.eq_of_mul_eq_mul_right (Nat.two_pow_pos s) heq
    omega
  · rw [two_pow_eq_mul (Nat.le_of_lt hs), ← Nat.mul_assoc] at heq
    have hfewer := Nat.eq_of_mul_eq_mul_right (Nat.two_pow_pos t) heq
    rw [hfewer, Nat.mul_assoc, Nat.mul_mod_right] at hodd
    exact absurd hodd (by decide)

/-- Rounding goes past the finite doubles from the middle between the largest of them and the
first power of two past them on. -/
theorem overflowUnits_le_roundUnits_iff {a b t : Nat} (hb : 0 < b)
    (ht : overflowUnits = Nat.pow 2 53 * Nat.pow 2 (t + 1)) :
    overflowUnits ≤ roundUnits a b ↔ (Nat.pow 2 54 - 1) * Nat.pow 2 t * b ≤ a := by
  have hfits : Fits ((Nat.pow 2 53 - 1) * Nat.pow 2 (t + 1)) := ⟨_, t + 1, by decide, rfl⟩
  have hodd := not_fitsEven_largest (t + 1)
  have hlt : (Nat.pow 2 53 - 1) * Nat.pow 2 (t + 1) < overflowUnits := by
    rw [ht]
    exact Nat.mul_lt_mul_of_pos_right (by decide) (Nat.two_pow_pos (t + 1))
  have hbelow := roundUnits_nearest a hb hfits
  have habove := roundUnits_nearest a hb overflowUnits_fits
  have hlargest := @le_of_fits_of_lt (roundUnits a b) (t + 1) (roundUnits_fits a b)
  have htie := @roundUnits_fitsEven_of_tie a b overflowUnits hb overflowUnits_fits
  rw [← ht] at hlargest
  have hmiddle : overflowUnits * b + (Nat.pow 2 53 - 1) * Nat.pow 2 (t + 1) * b =
      2 * ((Nat.pow 2 54 - 1) * Nat.pow 2 t * b) := by
    have hsum : Nat.pow 2 53 + (Nat.pow 2 53 - 1) = Nat.pow 2 54 - 1 := by decide
    have hnext : Nat.pow 2 (t + 1) = 2 * Nat.pow 2 t := Nat.pow_succ'
    rw [ht, ← Nat.add_mul, ← Nat.add_mul, hsum, hnext, Nat.mul_left_comm, Nat.mul_assoc]
  generalize roundUnits a b = r at *
  generalize (Nat.pow 2 53 - 1) * Nat.pow 2 (t + 1) = largest at *
  generalize (Nat.pow 2 54 - 1) * Nat.pow 2 t * b = middle at *
  have hltb := Nat.mul_lt_mul_of_pos_right hlt hb
  unfold distance at hbelow habove htie
  constructor
  · intro hr
    have hrb := Nat.mul_le_mul_right b hr
    omega
  · intro hmiddle_le
    refine Nat.not_lt.mp fun hr => ?_
    have hrb := Nat.mul_le_mul_right b (hlargest hr)
    -- only the largest finite magnitude can be as near, and then the tie is not for it
    have hsame : r * b = largest * b := by omega
    have hr' : r = largest := Nat.eq_of_mul_eq_mul_right hb hsame
    exact hodd (hr' ▸ htie (by omega) (by omega))

end Double

/-! ## Decimals -/

namespace Decimal

/-- The magnitude of a decimal. -/
def magnitude (d : Decimal) : ℚ := d.digits * 10 ^ d.exponent

/-- The rational number that a decimal denotes. -/
def toRat (d : Decimal) : ℚ := if d.negative then - d.magnitude else d.magnitude

/-- The magnitude in units, as a quotient: the numerator. -/
def numerator (d : Decimal) : Nat := d.digits * 10 ^ d.exponent.toNat * Double.unitsPerOne

/-- The magnitude in units, as a quotient: the denominator. -/
def denominator (d : Decimal) : Nat := 10 ^ (- d.exponent).toNat

theorem denominator_pos (d : Decimal) : 0 < d.denominator := Nat.pow_pos (by decide)

theorem magnitude_mul_unitsPerOne (d : Decimal) :
    d.magnitude * Double.unitsPerOne = d.numerator / d.denominator := by
  have hpower : (10 : ℚ) ^ d.exponent = 10 ^ d.exponent.toNat / 10 ^ (- d.exponent).toNat := by
    cases d.exponent with
    | ofNat e => simp
    | negSucc e => simp [zpow_negSucc]
  rw [magnitude, numerator, denominator, hpower]
  push_cast
  rw [← mul_div_assoc, div_mul_eq_mul_div]

/-- Where the exponent is large the decimal is past the finite doubles. -/
theorem overflowUnits_le {d : Decimal} (hdigits : d.digits ≠ 0) (h : 310 ≤ d.exponent) :
    Double.overflowUnits * d.denominator ≤ d.numerator := by
  obtain ⟨c, hc, hlimit⟩ : ∃ c, c = 310 ∧ Double.overflowUnits ≤ 10 ^ c * Double.unitsPerOne :=
    ⟨310, rfl, by decide +kernel⟩
  have hpower : 10 ^ c ≤ 10 ^ d.exponent.toNat := Nat.pow_le_pow_right (by decide) (by omega)
  have hone : d.denominator = 1 := by
    rw [denominator, show (- d.exponent).toNat = 0 by omega, Nat.pow_zero]
  rw [hone, Nat.mul_one]
  calc Double.overflowUnits
      ≤ 10 ^ d.exponent.toNat * Double.unitsPerOne :=
        Nat.le_trans hlimit (Nat.mul_le_mul_right _ hpower)
    _ ≤ d.digits * 10 ^ d.exponent.toNat * Double.unitsPerOne :=
        Nat.mul_le_mul_right _ (Nat.le_mul_of_pos_left _ (Nat.pos_of_ne_zero hdigits))

/-- Where the exponent is low for the number of digits the decimal is below half a unit, since
a factor of ten is more than three bits. -/
theorem numerator_lt {d : Decimal} (h : d.digits.log2 + 1 + 3 * d.exponent ≤ -1100) :
    2 * d.numerator < d.denominator := by
  obtain ⟨k, hk⟩ : ∃ k : Nat, d.exponent = -k := ⟨(- d.exponent).toNat, by omega⟩
  obtain ⟨c, hc, hunits⟩ : ∃ c, c = 1075 ∧ 2 * Double.unitsPerOne = 2 ^ c :=
    ⟨1075, rfl, by decide +kernel⟩
  have hdigits : d.digits < 2 ^ (d.digits.log2 + 1) := Nat.lt_log2_self
  rw [numerator, denominator, hk, show (-(k : Int)).toNat = 0 by omega,
    show (-(-(k : Int))).toNat = k by omega, Nat.pow_zero, Nat.mul_one]
  calc 2 * (d.digits * Double.unitsPerOne)
      = d.digits * 2 ^ c := by rw [Nat.mul_left_comm, hunits]
    _ < 2 ^ (d.digits.log2 + 1) * 2 ^ c :=
        Nat.mul_lt_mul_of_pos_right hdigits (Nat.two_pow_pos c)
    _ = 2 ^ (d.digits.log2 + 1 + c) := (Nat.pow_add _ _ _).symm
    _ ≤ 2 ^ (3 * k) := Nat.pow_le_pow_right (by decide) (by omega)
    _ = (2 ^ 3) ^ k := Nat.pow_mul _ _ _
    _ ≤ 10 ^ k := Nat.pow_le_pow_left (by decide) k

end Decimal

namespace Double

/-- Below half a unit nothing is left but the sign. -/
theorem ofRatio_of_small (negative : Bool) {a b : Nat} (h : 2 * a < b) :
    ofRatio negative a b = zero negative := by
  have hnearest := roundUnits_nearest a (b := b) (by omega) fitsEven_zero.fits
  have hround : roundUnits a b = 0 := by
    unfold distance at hnearest
    refine Nat.eq_zero_of_not_pos fun hpos => ?_
    have hone := Nat.mul_le_mul_right b hpos
    omega
  unfold ofRatio
  simp only [hround, dif_pos overflowUnits_pos]
  rfl

/-- From the first magnitude past the finite ones on everything is infinite. -/
theorem ofRatio_of_large (negative : Bool) {a b : Nat} (hb : 0 < b)
    (h : overflowUnits * b ≤ a) : ofRatio negative a b = .infinite negative := by
  have hnearest := roundUnits_nearest a hb overflowUnits_fits
  have hround : ¬ roundUnits a b < overflowUnits := by
    intro hlt
    have hltb := Nat.mul_lt_mul_of_pos_right hlt hb
    unfold distance at hnearest
    omega
  rw [ofRatio, dif_neg hround]

/-- A decimal is rounded from its numerator and denominator, also where its size is settled
without them. -/
theorem ofDecimal_eq_ofRatio (d : Decimal) :
    ofDecimal d = ofRatio d.negative d.numerator d.denominator := by
  have hpos := d.denominator_pos
  unfold ofDecimal
  split
  · rename_i hzero
    have hnumerator : d.numerator = 0 := by
      rw [Decimal.numerator, hzero, Nat.zero_mul, Nat.zero_mul]
    rw [ofRatio_of_small _ (by omega)]
  · rename_i hdigits
    split
    · rename_i hhigh
      exact (ofRatio_of_large _ hpos (Decimal.overflowUnits_le hdigits hhigh)).symm
    · split
      · rename_i hlow
        exact (ofRatio_of_small _ (Decimal.numerator_lt hlow)).symm
      · rw [Decimal.numerator, Decimal.denominator]
        cases d.exponent with
        | ofNat e => simp
        | negSucc e => simp

/-- The double of a decimal is the correctly rounded one. -/
theorem ofDecimal_isRounded (d : Decimal) : (ofDecimal d).IsRounded d.negative d.toRat := by
  rw [ofDecimal_eq_ofRatio]
  refine ofRatio_isRounded d.negative d.numerator d.denominator_pos ?_
  rw [Decimal.toRat]
  cases d.negative with
  | false => exact d.magnitude_mul_unitsPerOne
  | true =>
    simp only [if_true, neg_mul, d.magnitude_mul_unitsPerOne]
    push_cast
    rw [neg_div]

theorem ofRatio_eq_infinite_iff (negative : Bool) (a b : Nat) :
    ofRatio negative a b = .infinite negative ↔ overflowUnits ≤ roundUnits a b := by
  unfold ofRatio
  split
  · rename_i hfinite
    exact iff_of_false (by simp) (Nat.not_le.mpr hfinite)
  · rename_i hinfinite
    exact iff_of_true rfl (Nat.not_lt.mp hinfinite)

/-- A decimal is read as infinite from the middle between the largest finite double and the
first power of two past it on. -/
theorem ofDecimal_eq_infinite_iff (d : Decimal) :
    ofDecimal d = .infinite d.negative ↔ (2 : ℚ) ^ 1024 - 2 ^ 970 ≤ d.magnitude := by
  obtain ⟨t, hoverflow, hmiddle⟩ : ∃ t, overflowUnits = Nat.pow 2 53 * Nat.pow 2 (t + 1) ∧
      (Nat.pow 2 54 - 1) * Nat.pow 2 t = (2 ^ 54 - 1) * 2 ^ 970 * unitsPerOne :=
    ⟨2044, by decide +kernel, by decide +kernel⟩
  have hlimit : (((2 ^ 54 - 1) * 2 ^ 970 : Nat) : ℚ) = (2 : ℚ) ^ 1024 - 2 ^ 970 := by
    rw [Nat.cast_mul, Nat.cast_sub (by decide), sub_mul, Nat.cast_pow, Nat.cast_pow, ← pow_add,
      Nat.cast_one, one_mul]
    rfl
  have hpos : (0 : ℚ) < d.denominator := Nat.cast_pos.mpr d.denominator_pos
  rw [ofDecimal_eq_ofRatio, ofRatio_eq_infinite_iff,
    overflowUnits_le_roundUnits_iff d.denominator_pos hoverflow, hmiddle, ← hlimit,
    ← mul_le_mul_iff_left₀ Number.unitsPerOne_pos_rat, d.magnitude_mul_unitsPerOne,
    le_div_iff₀ hpos, ← Nat.cast_mul, ← Nat.cast_mul, Nat.cast_le]

end Double

end LineScript
