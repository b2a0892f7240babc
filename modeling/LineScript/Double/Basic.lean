set_option autoImplicit false

/-!
# Doubles: the values

A finite double is a whole number of units of `2 ^ -1074`, the smallest positive
double, with a sign.  In that unit the exact result of an operation is an integer
or a quotient of integers, and an operation is one exact step followed by one
rounding (`Double.ofRatio`): nothing here rests on the machine's floating point.

Proved: rounding yields a significand of at most 53 bits
(`Double.roundUnits_fits`), which is what makes `Double.ofRatio` total.
-/

namespace LineScript

namespace Double

/-- The number one, in units. -/
def unitsPerOne : Nat := Nat.pow 2 1074

/-- The first magnitude past the finite doubles, in units. -/
def overflowUnits : Nat := Nat.pow 2 2098

theorem overflowUnits_pos : 0 < overflowUnits := by decide +kernel

/-- The magnitude can be written with a significand of 53 bits. -/
def Fits (n : Nat) : Prop := ∃ m s, m < Nat.pow 2 53 ∧ n = m * Nat.pow 2 s

/-- The magnitude of a finite double, in units. -/
structure Magnitude where
  units : Nat
  fits : Fits units
  bounded : units < overflowUnits

theorem Magnitude.ext {x y : Magnitude} (h : x.units = y.units) : x = y := by
  cases x
  cases y
  cases h
  rfl

instance : DecidableEq Magnitude := fun x y =>
  if h : x.units = y.units then isTrue (Magnitude.ext h)
  else isFalse fun e => h (congrArg Magnitude.units e)

/-- No units at all. -/
def Magnitude.zero : Magnitude where
  units := 0
  fits := ⟨0, 0, by decide, rfl⟩
  bounded := overflowUnits_pos

end Double

/-- A binary floating-point number of double precision.  All the numbers that
are not a number are one. -/
inductive Double where
  | nan
  | infinite (negative : Bool)
  | finite (negative : Bool) (size : Double.Magnitude)
  deriving DecidableEq

namespace Double

/-- Zero with a sign. -/
def zero (negative : Bool) : Double := .finite negative .zero

instance : Inhabited Double := ⟨zero false⟩

/-- The number is infinite, of either sign. -/
def isInfinite : Double → Bool
  | .infinite _ => true
  | _ => false

/-- The number is zero, of either sign. -/
def isZero : Double → Bool
  | .finite _ size => size.units = 0
  | _ => false

/-! ## Rounding -/

/-- `a / b` to the nearest whole number; a half goes to the even neighbour. -/
def roundHalfEven (a b : Nat) : Nat :=
  if 2 * (a % b) < b then a / b
  else if b < 2 * (a % b) then a / b + 1
  else a / b + a / b % 2

/-- How many bits of a whole part lie below its 53 leading ones. -/
def droppedBits (whole : Nat) : Nat := whole.log2 - 52

/-- `a / b` to the nearest number whose significand has 53 bits. -/
def roundUnits (a b : Nat) : Nat :=
  roundHalfEven a (b * Nat.pow 2 (droppedBits (a / b))) * Nat.pow 2 (droppedBits (a / b))

theorem roundHalfEven_le (a b : Nat) : roundHalfEven a b ≤ a / b + 1 := by
  unfold roundHalfEven
  split
  · omega
  · split <;> omega

/-- What is left of a whole part has at most 53 bits. -/
theorem div_dropped_lt (q : Nat) : q / Nat.pow 2 (droppedBits q) < Nat.pow 2 53 := by
  apply Nat.div_lt_of_lt_mul
  rw [Nat.pow_eq, Nat.pow_eq, ← Nat.pow_add]
  refine Nat.lt_of_lt_of_le Nat.lt_log2_self (Nat.pow_le_pow_right (by decide) ?_)
  unfold droppedBits
  omega

theorem roundUnits_fits (a b : Nat) : Fits (roundUnits a b) := by
  unfold roundUnits
  have hq : a / (b * Nat.pow 2 (droppedBits (a / b))) < Nat.pow 2 53 := by
    rw [← Nat.div_div_eq_div_mul]
    exact div_dropped_lt (a / b)
  generalize droppedBits (a / b) = s at hq ⊢
  have hr := roundHalfEven_le a (b * Nat.pow 2 s)
  by_cases hlt : roundHalfEven a (b * Nat.pow 2 s) < Nat.pow 2 53
  · exact ⟨_, s, hlt, rfl⟩
  · -- a full significand carries over into one more bit
    have he : roundHalfEven a (b * Nat.pow 2 s) = Nat.pow 2 52 * 2 := by
      have h53 : Nat.pow 2 53 = Nat.pow 2 52 * 2 := rfl
      omega
    refine ⟨Nat.pow 2 52, s + 1, by decide, ?_⟩
    rw [he, Nat.mul_assoc, Nat.mul_comm 2]
    rfl

/-- The double nearest to `± a / b` units, a half going to the even significand.
Past the largest finite double it is infinite. -/
def ofRatio (negative : Bool) (a b : Nat) : Double :=
  if h : roundUnits a b < overflowUnits then
    .finite negative ⟨roundUnits a b, roundUnits_fits a b, h⟩
  else .infinite negative

/-- The double nearest to an integer. -/
def ofInt (n : Int) : Double := ofRatio (n < 0) (n.natAbs * unitsPerOne) 1

end Double

end LineScript
