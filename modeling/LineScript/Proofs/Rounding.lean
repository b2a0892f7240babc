import LineScript.Proofs.SafeNumber

set_option autoImplicit false

/-!
# Integers as doubles

A safe integer is a double without rounding, and the exact result of an operation on
integers, rounded once, is what the same operation on their doubles gives.  Only the sign
of a zero can differ, and no operation brings it to light, since a zero divisor is never
divided by.

Proved: rounding fixes every magnitude that a double can have (`roundUnits_of_fits`) and
sees a quotient, not its terms (`ofRatio_mul_right`); the operations respect doubles that
differ in the sign of a zero only (`Alike.add`, `Alike.mul`, `Alike.div_left`); and they
do to the doubles of safe integers what exact arithmetic does to the integers
(`add_ofInt`, `sub_ofInt`, `mul_ofInt`, `div_ofInt`).
-/

namespace LineScript.Double

/-! ## Rounding -/

/-- What is a whole number already is not rounded. -/
theorem roundHalfEven_mul_self (m : Nat) {b : Nat} (hb : 0 < b) : roundHalfEven (m * b) b = m := by
  unfold roundHalfEven
  rw [Nat.mul_mod_left, Nat.mul_div_cancel m hb, if_pos (by omega)]

/-- Rounding fixes what has a significand of 53 bits. -/
theorem roundUnits_of_fits {n : Nat} (h : Fits n) : roundUnits n 1 = n := by
  obtain ⟨m, q, hm, rfl⟩ := h
  have hdropped : droppedBits (m * Nat.pow 2 q) ≤ q := by
    unfold droppedBits
    by_cases hzero : m * Nat.pow 2 q = 0
    · rw [hzero, Nat.log2_zero]
      omega
    · have hbound : m * Nat.pow 2 q < 2 ^ (53 + q) := by
        rw [Nat.pow_add]
        exact Nat.mul_lt_mul_of_pos_right hm (Nat.two_pow_pos q)
      have hlog := (Nat.log2_lt hzero).mpr hbound
      omega
  -- so the bits that rounding drops are zeros
  unfold roundUnits
  rw [Nat.div_one, Nat.one_mul]
  generalize droppedBits (m * Nat.pow 2 q) = s at hdropped
  have hsplit : m * Nat.pow 2 q = m * Nat.pow 2 (q - s) * Nat.pow 2 s := by
    rw [Nat.mul_assoc, Nat.pow_eq, Nat.pow_eq, Nat.pow_eq, ← Nat.pow_add]
    congr 2
    omega
  have hpos : 0 < Nat.pow 2 s := Nat.two_pow_pos s
  rw [hsplit, roundHalfEven_mul_self _ hpos]

theorem roundHalfEven_mul_right (a b : Nat) {k : Nat} (hk : 0 < k) :
    roundHalfEven (a * k) (b * k) = roundHalfEven a b := by
  have hlt : ∀ m n : Nat, m * k < n * k ↔ m < n := fun m n => Nat.mul_lt_mul_right hk
  unfold roundHalfEven
  rw [Nat.mul_mod_mul_right, Nat.mul_div_mul_right _ _ hk, ← Nat.mul_assoc]
  simp only [hlt]

/-- Rounding sees a quotient and not its terms. -/
theorem ofRatio_mul_right (negative : Bool) (a b : Nat) {k : Nat} (hk : 0 < k) :
    ofRatio negative (a * k) (b * k) = ofRatio negative a b := by
  have hround : roundUnits (a * k) (b * k) = roundUnits a b := by
    unfold roundUnits
    rw [Nat.mul_div_mul_right _ _ hk, Nat.mul_right_comm, roundHalfEven_mul_right _ _ hk]
  unfold ofRatio
  simp only [hround]

/-! ## Signs of zeros -/

/-- The numbers are the same, except that both may be zeros of different signs. -/
def Alike (x y : Double) : Prop := x = y ∨ x.isZero = true ∧ y.isZero = true

theorem alike_refl (x : Double) : Alike x x := Or.inl rfl

theorem Alike.trans {x y z : Double} (hxy : Alike x y) (hyz : Alike y z) : Alike x z := by
  rcases hxy with rfl | ⟨hx, hy⟩
  · exact hyz
  · rcases hyz with rfl | ⟨-, hz⟩
    · exact Or.inr ⟨hx, hy⟩
    · exact Or.inr ⟨hx, hz⟩

/-- Zeros are finite and have no units. -/
theorem eq_finite_of_isZero {x : Double} (h : x.isZero = true) :
    ∃ s size, x = .finite s size ∧ size.units = 0 := by
  cases x with
  | nan => exact absurd h (by simp [isZero])
  | infinite s => exact absurd h (by simp [isZero])
  | finite s size => exact ⟨s, size, rfl, of_decide_eq_true h⟩

theorem isZero_zero (s : Bool) : (zero s).isZero = true := rfl

theorem isZero_ofRatio_zero (s : Bool) (b : Nat) : (ofRatio s 0 b).isZero = true := by
  have hround : roundUnits 0 b = 0 := by
    simp [roundUnits, roundHalfEven]
  unfold ofRatio
  simp only [hround]
  rw [dif_pos overflowUnits_pos]
  rfl

theorem add_comm (x y : Double) : add x y = add y x := by
  cases x with
  | nan => cases y <;> rfl
  | infinite s =>
    cases y with
    | nan => rfl
    | infinite t =>
      by_cases h : s = t
      · rw [h]
      · rw [add, add, if_neg h, if_neg (Ne.symm h)]
    | finite t y => rfl
  | finite s x =>
    cases y with
    | nan => rfl
    | infinite t => rfl
    | finite t y => rw [add, add, Int.add_comm, Bool.and_comm]

theorem mul_comm (x y : Double) : mul x y = mul y x := by
  cases x with
  | nan => cases y <;> rfl
  | infinite s =>
    cases y with
    | nan => rfl
    | infinite t => rw [mul, mul, bne_comm]
    | finite t y => rw [mul, mul, bne_comm]
  | finite s x =>
    cases y with
    | nan => rfl
    | infinite t => rw [mul, mul, bne_comm]
    | finite t y => rw [mul, mul, Nat.mul_comm, bne_comm]

section

variable {x x' : Double} (hx : x.isZero = true) (hx' : x'.isZero = true) (y : Double)
include hx hx'

theorem add_of_isZero : Alike (add x y) (add x' y) := by
  obtain ⟨s, size, rfl, hsize⟩ := eq_finite_of_isZero hx
  obtain ⟨s', size', rfl, hsize'⟩ := eq_finite_of_isZero hx'
  cases y with
  | nan => exact alike_refl _
  | infinite t => exact alike_refl _
  | finite t y =>
    rw [add, add, signed_of_units_eq_zero hsize, signed_of_units_eq_zero hsize', Int.zero_add]
    by_cases hsum : signed t y = 0
    · simp only [hsum]
      exact Or.inr ⟨isZero_zero _, isZero_zero _⟩
    · simp only [hsum]
      exact alike_refl _

theorem mul_of_isZero : Alike (mul x y) (mul x' y) := by
  obtain ⟨s, size, rfl, hsize⟩ := eq_finite_of_isZero hx
  obtain ⟨s', size', rfl, hsize'⟩ := eq_finite_of_isZero hx'
  cases y with
  | nan => exact alike_refl _
  | infinite t =>
    rw [mul, mul, if_pos hsize, if_pos hsize']
    exact alike_refl _
  | finite t y =>
    rw [mul, mul, hsize, hsize', Nat.zero_mul]
    exact Or.inr ⟨isZero_ofRatio_zero _ _, isZero_ofRatio_zero _ _⟩

theorem div_of_isZero : Alike (div x y) (div x' y) := by
  obtain ⟨s, size, rfl, hsize⟩ := eq_finite_of_isZero hx
  obtain ⟨s', size', rfl, hsize'⟩ := eq_finite_of_isZero hx'
  cases y with
  | nan => exact alike_refl _
  | infinite t => exact Or.inr ⟨isZero_zero _, isZero_zero _⟩
  | finite t y =>
    rw [div, div, if_pos hsize, if_pos hsize', hsize, hsize', Nat.zero_mul]
    split
    · exact alike_refl _
    · exact Or.inr ⟨isZero_ofRatio_zero _ _, isZero_ofRatio_zero _ _⟩

end

/-- An operation that is blind to the sign of a zero on its left respects doubles that are
alike there. -/
theorem Alike.map_left {op : Double → Double → Double}
    (hzero : ∀ {x x' : Double}, x.isZero = true → x'.isZero = true → ∀ y,
      Alike (op x y) (op x' y))
    {x x' : Double} (h : Alike x x') (y : Double) : Alike (op x y) (op x' y) := by
  rcases h with rfl | ⟨hx, hx'⟩
  · exact alike_refl _
  · exact hzero hx hx' y

/-- If moreover the order of its operands does not matter, it respects them on both sides. -/
theorem Alike.map_both {op : Double → Double → Double} (hcomm : ∀ x y, op x y = op y x)
    (hzero : ∀ {x x' : Double}, x.isZero = true → x'.isZero = true → ∀ y,
      Alike (op x y) (op x' y))
    {x x' y y' : Double} (hx : Alike x x') (hy : Alike y y') :
    Alike (op x y) (op x' y') := by
  have hright := hy.map_left hzero x'
  rw [hcomm y, hcomm y'] at hright
  exact (hx.map_left hzero y).trans hright

section

variable {x x' y y' : Double} (hx : Alike x x') (hy : Alike y y')
include hx hy

theorem Alike.add : Alike (add x y) (add x' y') := Alike.map_both add_comm add_of_isZero hx hy

theorem Alike.mul : Alike (mul x y) (mul x' y') := Alike.map_both mul_comm mul_of_isZero hx hy

end

theorem Alike.div_left {x x' : Double} (h : Alike x x') (y : Double) :
    Alike (div x y) (div x' y) :=
  h.map_left div_of_isZero y

theorem isZero_neg {x : Double} (h : x.isZero = true) : x.neg.isZero = true := by
  obtain ⟨s, size, rfl, hsize⟩ := eq_finite_of_isZero h
  exact decide_eq_true hsize

theorem Alike.neg {x y : Double} (h : Alike x y) : Alike x.neg y.neg :=
  h.imp (congrArg Double.neg) fun hzero => ⟨isZero_neg hzero.1, isZero_neg hzero.2⟩

theorem Alike.sub {x x' y y' : Double} (hx : Alike x x') (hy : Alike y y') :
    Alike (sub x y) (sub x' y') :=
  hx.add hy.neg

/-- The sign of what is rounded is the sign of the result. -/
theorem neg_ofRatio (s : Bool) (a b : Nat) : neg (ofRatio s a b) = ofRatio (!s) a b := by
  unfold ofRatio
  split
  · rfl
  · rfl

/-! ## Integers -/

/-- A safe integer is a double as it is. -/
theorem ofInt_of_safe {n : Int} (h : n.natAbs ≤ Number.safeLimit) :
    ∃ size, ofInt n = .finite (n < 0) size ∧ size.units = n.natAbs * unitsPerOne := by
  have hsignificand : n.natAbs < Nat.pow 2 53 := Nat.lt_of_le_of_lt h (by decide)
  have hfits : Fits (n.natAbs * unitsPerOne) := by
    refine ⟨n.natAbs, 1074, hsignificand, ?_⟩
    unfold unitsPerOne
    rfl
  have hround := roundUnits_of_fits hfits
  have hbound : roundUnits (n.natAbs * unitsPerOne) 1 < overflowUnits := by
    have hlimit := Number.safeLimit_units
    have hle := Nat.mul_le_mul_right unitsPerOne h
    rw [hround]
    omega
  refine ⟨⟨_, roundUnits_fits _ _, hbound⟩, ?_, hround⟩
  rw [ofInt, ofRatio, dif_pos hbound]

theorem isZero_ofInt_zero : (ofInt 0).isZero = true := isZero_ofInt 0

theorem signed_ofInt {n : Int} {size : Magnitude} (h : size.units = n.natAbs * unitsPerOne) :
    signed (n < 0) size = n * unitsPerOne := by
  unfold signed
  rw [h, Int.natCast_mul]
  by_cases hn : n < 0
  · rw [if_pos (by simpa using hn), Int.ofNat_natAbs_of_nonpos (by omega), Int.neg_mul, Int.neg_neg]
  · rw [if_neg (by simpa using hn), Int.natAbs_of_nonneg (by omega)]

/-- The sign of an integer is the sign of its units. -/
theorem mul_unitsPerOne_neg (n : Int) : n * unitsPerOne < 0 ↔ n < 0 := by
  have hunits : (0 : Int) < unitsPerOne := Int.ofNat_lt.mpr unitsPerOne_pos
  have hmul : n * unitsPerOne < 0 * unitsPerOne ↔ n < 0 := Int.mul_lt_mul_right hunits
  rwa [Int.zero_mul] at hmul

/-- The sign of a product or a quotient of integers that are not zero. -/
theorem decide_mul_neg {m n : Int} (hm : m ≠ 0) (hn : n ≠ 0) :
    decide (m * n < 0) = (decide (m < 0) != decide (n < 0)) := by
  rcases Int.lt_or_gt_of_ne hm with hm | hm
  · rcases Int.lt_or_gt_of_ne hn with hn | hn
    · rw [decide_eq_true hm, decide_eq_true hn,
        decide_eq_false (Int.lt_asymm (Int.mul_pos_of_neg_of_neg hm hn))]
      rfl
    · rw [decide_eq_true hm, decide_eq_false (Int.lt_asymm hn),
        decide_eq_true (Int.mul_neg_of_neg_of_pos hm hn)]
      rfl
  · rcases Int.lt_or_gt_of_ne hn with hn | hn
    · rw [decide_eq_false (Int.lt_asymm hm), decide_eq_true hn,
        decide_eq_true (Int.mul_neg_of_pos_of_neg hm hn)]
      rfl
    · rw [decide_eq_false (Int.lt_asymm hm), decide_eq_false (Int.lt_asymm hn),
        decide_eq_false (Int.lt_asymm (Int.mul_pos hm hn))]
      rfl

section

variable {m n : Int} (hm : m.natAbs ≤ Number.safeLimit) (hn : n.natAbs ≤ Number.safeLimit)
include hm hn

/-- The sum of integers, rounded, is the sum of their doubles. -/
theorem add_ofInt : Alike (ofInt (m + n)) (add (ofInt m) (ofInt n)) := by
  obtain ⟨x, hx, hxu⟩ := ofInt_of_safe hm
  obtain ⟨y, hy, hyu⟩ := ofInt_of_safe hn
  have hsum : signed (m < 0) x + signed (n < 0) y = (m + n) * unitsPerOne := by
    rw [signed_ofInt hxu, signed_ofInt hyu, Int.add_mul]
  rw [hx, hy, add, hsum]
  by_cases hzero : m + n = 0
  · rw [hzero, Int.zero_mul]
    exact Or.inr ⟨isZero_ofInt_zero, isZero_zero _⟩
  · have hne : (m + n) * unitsPerOne ≠ 0 :=
      Int.mul_ne_zero hzero (Int.ofNat_ne_zero.mpr (Nat.ne_of_gt unitsPerOne_pos))
    simp only [if_neg hne, mul_unitsPerOne_neg, Int.natAbs_mul, Int.natAbs_natCast]
    exact alike_refl _

/-- The difference of integers, rounded, is the difference of their doubles. -/
theorem sub_ofInt : Alike (ofInt (m - n)) (sub (ofInt m) (ofInt n)) := by
  have hneg : Alike (ofInt (-n)) (neg (ofInt n)) := by
    by_cases hzero : n = 0
    · rw [hzero]
      exact Or.inr ⟨isZero_ofInt_zero, isZero_neg isZero_ofInt_zero⟩
    · rw [ofInt, ofInt, neg_ofRatio, Int.natAbs_neg]
      have hsign : decide (-n < 0) = !decide (n < 0) := by
        rw [← decide_not, decide_eq_decide]
        omega
      rw [hsign]
      exact alike_refl _
  have hn' : (-n).natAbs ≤ Number.safeLimit := by rwa [Int.natAbs_neg]
  exact (add_ofInt hm hn').trans ((alike_refl _).add hneg)

/-- The product of integers, rounded, is the product of their doubles. -/
theorem mul_ofInt : Alike (ofInt (m * n)) (mul (ofInt m) (ofInt n)) := by
  obtain ⟨x, hx, hxu⟩ := ofInt_of_safe hm
  obtain ⟨y, hy, hyu⟩ := ofInt_of_safe hn
  have hunits : x.units * y.units = (m * n).natAbs * unitsPerOne * unitsPerOne := by
    rw [hxu, hyu, Int.natAbs_mul, ← Nat.mul_assoc, Nat.mul_right_comm m.natAbs]
  have hround := fun s => ofRatio_mul_right s ((m * n).natAbs * unitsPerOne) 1 unitsPerOne_pos
  rw [Nat.one_mul] at hround
  rw [hx, hy, mul, hunits, hround, ofInt]
  by_cases hzero : m * n = 0
  · rw [hzero]
    simp only [Int.natAbs_zero, Nat.zero_mul]
    exact Or.inr ⟨isZero_ofRatio_zero _ _, isZero_ofRatio_zero _ _⟩
  · obtain ⟨hm', hn'⟩ := not_or.mp (mt Int.mul_eq_zero.mpr hzero)
    rw [decide_mul_neg hm' hn']
    exact alike_refl _

/-- The quotient of integers is the quotient of their doubles. -/
theorem div_ofInt (hzero : n ≠ 0) : Number.ratio m n = div (ofInt m) (ofInt n) := by
  obtain ⟨x, hx, hxu⟩ := ofInt_of_safe hm
  obtain ⟨y, hy, hyu⟩ := ofInt_of_safe hn
  have hne : n.natAbs * unitsPerOne ≠ 0 :=
    Nat.mul_ne_zero (Int.natAbs_ne_zero.mpr hzero) (Nat.ne_of_gt unitsPerOne_pos)
  rw [hx, hy, div, hyu, if_neg hne, hxu, ofRatio_mul_right _ _ _ unitsPerOne_pos]
  rfl

end

end LineScript.Double
