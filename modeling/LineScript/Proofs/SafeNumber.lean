import LineScript.Expression
import LineScript.Proofs.Reading

set_option autoImplicit false

/-!
# Safe numbers

A number is safe if it is a double, or an integer that has not passed the safe
limit.  Safe numbers are far from every bound of arithmetic: an integer below the
limit is near to a finite double, so is the quotient of two of them, and its
numeral has few digits.

Proved: what is normalized is safe (`normalize_safe`), and on safe numbers every
operation has a result and every number has a text (`Operator.apply_of_safe`,
`written_of_safe`).
-/

namespace LineScript

/-! ## Rounding -/

namespace Double

theorem unitsPerOne_pos : 0 < unitsPerOne := by decide +kernel

/-- Rounding at most doubles a quotient, up to one unit. -/
theorem roundUnits_le (a b : Nat) : roundUnits a b ≤ 2 * (a / b) + 1 := by
  unfold roundUnits
  generalize hs : droppedBits (a / b) = s
  have hround := roundHalfEven_le a (b * Nat.pow 2 s)
  rw [← Nat.div_div_eq_div_mul] at hround
  have hpow : Nat.pow 2 s ≤ a / b + 1 := by
    by_cases hq : a / b = 0
    · rw [← hs, hq]
      decide
    · have hlog : Nat.pow 2 (a / b).log2 ≤ a / b := Nat.log2_self_le hq
      have hle : Nat.pow 2 s ≤ Nat.pow 2 (a / b).log2 := by
        apply Nat.pow_le_pow_right (by decide)
        rw [← hs, droppedBits]
        omega
      omega
  calc roundHalfEven a (b * Nat.pow 2 s) * Nat.pow 2 s
      ≤ (a / b / Nat.pow 2 s + 1) * Nat.pow 2 s := Nat.mul_le_mul_right _ hround
    _ = a / b / Nat.pow 2 s * Nat.pow 2 s + Nat.pow 2 s := Nat.succ_mul _ _
    _ ≤ a / b + (a / b + 1) := Nat.add_le_add (Nat.div_mul_le_self _ _) hpow
    _ = 2 * (a / b) + 1 := by omega

/-- What is at least one unit does not round to none. -/
theorem roundUnits_pos {a b : Nat} (h : a / b ≠ 0) : 0 < roundUnits a b := by
  unfold roundUnits
  generalize hs : droppedBits (a / b) = s
  have hpow : 0 < Nat.pow 2 s := Nat.pow_pos (by decide)
  have hle : Nat.pow 2 s ≤ a / b := by
    refine Nat.le_trans (Nat.pow_le_pow_right (by decide) ?_) (Nat.log2_self_le h)
    rw [← hs, droppedBits]
    omega
  have hwhole : 0 < a / (b * Nat.pow 2 s) := by
    rw [← Nat.div_div_eq_div_mul]
    exact Nat.div_pos hle hpow
  refine Nat.mul_pos (Nat.lt_of_lt_of_le hwhole ?_) hpow
  unfold roundHalfEven
  split
  · exact Nat.le_refl _
  · split
    · exact Nat.le_succ _
    · exact Nat.le_add_right _ _

/-- An integer that is not zero rounds to a double that is not zero. -/
theorem isZero_ofInt (n : Int) : (ofInt n).isZero = decide (n = 0) := by
  have hunits : roundUnits (n.natAbs * unitsPerOne) 1 = 0 ↔ n = 0 := by
    constructor
    · intro hround
      by_contra hn
      have hpos : n.natAbs * unitsPerOne ≠ 0 :=
        Nat.mul_ne_zero (Int.natAbs_ne_zero.mpr hn) (Nat.ne_of_gt unitsPerOne_pos)
      rw [← Nat.div_one (n.natAbs * unitsPerOne)] at hpos
      exact absurd hround (Nat.ne_of_gt (roundUnits_pos hpos))
    · rintro rfl
      rw [Int.natAbs_zero, Nat.zero_mul]
      simp [roundUnits, roundHalfEven]
  rw [ofInt, ofRatio]
  split
  · exact decide_eq_decide.mpr hunits
  · rename_i hlarge
    have hne : n ≠ 0 := by
      rw [Ne, ← hunits]
      have := overflowUnits_pos
      omega
    exact (decide_eq_false hne).symm

/-- A quotient of no more than so many ones is near to a finite double. -/
theorem isInfinite_ofRatio {negative : Bool} {a b n : Nat} (h : a / b ≤ n * unitsPerOne)
    (hn : 2 * (n * unitsPerOne) + 1 < overflowUnits) :
    (ofRatio negative a b).isInfinite = false := by
  have hlt : roundUnits a b < overflowUnits := by
    have := roundUnits_le a b
    omega
  rw [ofRatio, dif_pos hlt]
  rfl

end Double

namespace Number

/-! ## Safety -/

/-- The number is a double, or an integer up to the safe limit. -/
def Safe : Number → Prop
  | .int n => n.natAbs ≤ safeLimit
  | .double _ => True

instance : DecidablePred Safe
  | .int n => inferInstanceAs (Decidable (n.natAbs ≤ safeLimit))
  | .double _ => isTrue trivial

/-- The safe limit is far below the largest double. -/
theorem safeLimit_units : 2 * (safeLimit * Double.unitsPerOne) + 1 < Double.overflowUnits := by
  decide +kernel

theorem normalize_safe (x : Number) : x.normalize.Safe := by
  cases x with
  | double x => exact trivial
  | int n =>
    rw [normalize]
    split
    · exact trivial
    · rename_i h
      exact Nat.not_lt.mp h

theorem ofLiteral_safe (length : Nat) (l : Decimal.Literal) : (ofLiteral length l).Safe := by
  unfold ofLiteral
  split
  · exact trivial
  · exact normalize_safe _

/-! ## Arithmetic on safe numbers -/

theorem toDouble_of_safe {x : Number} (h : x.Safe) : ∃ d, x.toDouble = .ok d := by
  cases x with
  | double d => exact ⟨d, rfl⟩
  | int n =>
    have hle : n.natAbs * Double.unitsPerOne / 1 ≤ safeLimit * Double.unitsPerOne := by
      rw [Nat.div_one]
      exact Nat.mul_le_mul_right _ h
    have hfin : (Double.ofInt n).isInfinite = false :=
      Double.isInfinite_ofRatio hle safeLimit_units
    exact ⟨.ofInt n, by rw [toDouble, if_neg (by simp [hfin])]⟩

theorem lift_of_safe (exact : Int → Int → Int) (rounded : Double → Double → Double)
    {x y : Number} (hx : x.Safe) (hy : y.Safe) : ∃ z, lift exact rounded x y = .ok z := by
  obtain ⟨dx, hdx⟩ := toDouble_of_safe hx
  obtain ⟨dy, hdy⟩ := toDouble_of_safe hy
  unfold lift
  split
  · exact ⟨_, rfl⟩
  · exact ⟨.double (rounded dx dy), by rw [hdx, hdy]; rfl⟩

/-- The quotient of two safe integers is near to a finite double. -/
theorem isInfinite_ratio {m : Int} (n : Int) (hm : m.natAbs ≤ safeLimit) :
    (ratio m n).isInfinite = false := by
  apply Double.isInfinite_ofRatio _ safeLimit_units
  exact Nat.le_trans (Nat.div_le_self _ _) (Nat.mul_le_mul_right _ hm)

/-! ## Division -/

theorem isZero_int (n : Int) : (int n).isZero = decide (n = 0) := by
  have hunit : (Double.unitsPerOne : Int) ≠ 0 := by
    have := Double.unitsPerOne_pos
    omega
  simp only [isZero, same, compare, place?, Int.zero_mul]
  rw [decide_eq_decide, Place.units.injEq, Int.mul_eq_zero]
  exact or_iff_left hunit

theorem isZero_double (x : Double) : (Number.double x).isZero = x.isZero := by
  cases x with
  | nan => rfl
  | infinite s =>
    cases s with
    | false => rfl
    | true => rfl
  | finite s size =>
    simp only [isZero, same, compare, place?, Double.isZero, Int.zero_mul]
    rw [decide_eq_decide]
    constructor
    · intro h
      have hsigned := Place.units.inj h
      unfold Double.signed at hsigned
      split at hsigned
      · omega
      · omega
    · intro h
      rw [Double.signed_of_units_eq_zero h]

/-- The double of a number is zero if and only if the number is. -/
theorem isZero_of_toDouble {x : Number} {d : Double} (h : x.toDouble = .ok d) :
    d.isZero = x.isZero := by
  cases x with
  | double x =>
    obtain rfl := Except.ok.inj h
    exact (isZero_double x).symm
  | int n =>
    rw [toDouble] at h
    split at h
    · exact absurd h (by simp)
    · obtain rfl := Except.ok.inj h
      rw [isZero_int, Double.isZero_ofInt]

/-- Division asks before it divides: a zero divisor has the quotient zero, and for any
other divisor nothing but the size of the numbers can be refused. -/
theorem divide_eq (x y : Number) :
    divide x y =
      if y.isZero then .ok (.int 0)
      else match x, y with
        | .int m, .int n =>
          if (ratio m n).isInfinite then .error .quotientTooLarge else .ok (.double (ratio m n))
        | x, y => do return .double ((← x.toDouble).div (← y.toDouble)) := by
  have hrounded : ¬ y.isZero = true → (do
      let a ← x.toDouble
      let b ← y.toDouble
      if b.isZero then .error .doubleDivisionByZero else return .double (a.div b)) =
        (do return .double ((← x.toDouble).div (← y.toDouble)) : Except Fault Number) := by
    intro hy
    cases x.toDouble with
    | error f => rfl
    | ok a =>
      cases hb : y.toDouble with
      | error f => rfl
      | ok b =>
        have hzero := isZero_of_toDouble hb
        simp only [hzero, hy, bind, Except.bind]
        rfl
  rw [divide]
  split
  · rfl
  · rename_i hy
    cases x with
    | double x => exact hrounded hy
    | int m =>
      cases y with
      | double y => exact hrounded hy
      | int n =>
        have hn : n ≠ 0 := by simpa [isZero_int] using hy
        rw [quotient, if_neg hn]

theorem divide_of_safe {x y : Number} (hx : x.Safe) (hy : y.Safe) :
    ∃ z, divide x y = .ok z := by
  obtain ⟨dx, hdx⟩ := toDouble_of_safe hx
  obtain ⟨dy, hdy⟩ := toDouble_of_safe hy
  rw [divide_eq]
  split
  · exact ⟨_, rfl⟩
  · split
    · rename_i m n _
      exact ⟨.double (ratio m n), by rw [if_neg (by simp [isInfinite_ratio n hx])]⟩
    · exact ⟨.double (dx.div dy), by rw [hdx, hdy]; rfl⟩

theorem written_of_safe {x : Number} (h : x.Safe) : ∃ t, x.written = .ok t := by
  cases x with
  | double x => exact ⟨_, rfl⟩
  | int n =>
    have hlimit : safeLimit < Nat.pow 10 numeralLimit := by decide +kernel
    have hle : n.natAbs ≤ safeLimit := h
    exact ⟨Text.ofInt n, by rw [written, if_neg (by omega)]⟩

end Number

/-- On safe numbers every operation has a result. -/
theorem Operator.apply_of_safe (op : Operator) {x y : Number} (hx : x.Safe) (hy : y.Safe) :
    ∃ z, op.apply x y = .ok z := by
  cases op with
  | add => exact Number.lift_of_safe _ _ hx hy
  | sub => exact Number.lift_of_safe _ _ hx hy
  | mul => exact Number.lift_of_safe _ _ hx hy
  | div => exact Number.divide_of_safe hx hy

end LineScript
