import LineScript.Double.Arithmetic

set_option autoImplicit false

/-!
# Rounding to the nearest double

A quotient is rounded by dropping all bits but the 53 leading ones of its whole part.
Here this is measured against the doubles themselves: nothing that a double can hold is
nearer to the quotient than what rounding gives.  For the infinite doubles stands the first
magnitude past the finite ones, so a number goes over to them where that magnitude is the
nearest.

Proved: among the whole numbers rounding finds a nearest (`roundHalfEven_nearest`), hence
among the magnitudes with a significand of 53 bits (`roundUnits_nearest`), and hence among
the doubles (`ofRatio_nearest`, `ofInt_nearest`).
-/

namespace LineScript.Double

/-! ## Magnitudes -/

/-- How far two integers are apart. -/
def distance (m n : Int) : Nat := (m - n).natAbs

/-- The nearest whole number is as near as any other. -/
theorem roundHalfEven_nearest (a k : Nat) {b : Nat} (hb : 0 < b) :
    distance (roundHalfEven a b * b) a ≤ distance (k * b) a := by
  have hdiv : (a / b : Nat) * (b : Int) + (a % b : Nat) = a := by
    exact_mod_cast Nat.div_add_mod' a b
  have hmod : a % b < b := Nat.mod_lt a hb
  have hsucc : ((a / b + 1 : Nat) : Int) * b = (a / b : Nat) * (b : Int) + b := by
    rw [Int.natCast_succ, Int.add_mul, Int.one_mul]
  -- what is rounded lies between two neighbours, and `k` on one side of both
  have hside : (k : Int) * b ≤ (a / b : Nat) * (b : Int) ∨
      (a / b : Nat) * (b : Int) + b ≤ (k : Int) * b := by
    rcases Nat.lt_or_ge (a / b) k with hlt | hge
    · right
      rw [← hsucc]
      exact_mod_cast Nat.mul_le_mul_right b hlt
    · left
      exact_mod_cast Nat.mul_le_mul_right b hge
  unfold distance roundHalfEven
  split
  · omega
  · split
    · rw [hsucc]
      omega
    · rcases Nat.mod_two_eq_zero_or_one (a / b) with heven | hodd
      · rw [heven, Nat.add_zero]
        omega
      · rw [hodd, hsucc]
        omega

/-- Where bits are dropped, a significand fills up all of the others. -/
theorem le_of_droppedBits_pos {q : Nat} (h : 0 < droppedBits q) :
    Nat.pow 2 52 * Nat.pow 2 (droppedBits q) ≤ q := by
  unfold droppedBits at h ⊢
  have hne : q ≠ 0 := by
    rintro rfl
    exact absurd h (by simp)
  rw [Nat.pow_eq, Nat.pow_eq, ← Nat.pow_add, show 52 + (q.log2 - 52) = q.log2 by omega]
  exact Nat.log2_self_le hne

/-- A significand of 53 bits cannot come nearer than the multiples of the last bit that
rounding keeps. -/
theorem exists_multiple_nearer {n q : Nat} (hn : Fits n) :
    ∃ k, k * Nat.pow 2 (droppedBits q) = n ∨
      n ≤ k * Nat.pow 2 (droppedBits q) ∧ k * Nat.pow 2 (droppedBits q) ≤ q := by
  obtain ⟨m, s, hm, rfl⟩ := hn
  by_cases hs : droppedBits q ≤ s
  · refine ⟨m * Nat.pow 2 (s - droppedBits q), Or.inl ?_⟩
    rw [Nat.mul_assoc, Nat.pow_eq, Nat.pow_eq, Nat.pow_eq, ← Nat.pow_add]
    congr 2
    omega
  · -- the number has bits that are dropped, so it is below the leading bit
    refine ⟨Nat.pow 2 52, Or.inr ⟨?_, le_of_droppedBits_pos (by omega)⟩⟩
    calc m * Nat.pow 2 s
        ≤ Nat.pow 2 53 * Nat.pow 2 s := Nat.mul_le_mul_right _ (Nat.le_of_lt hm)
      _ = Nat.pow 2 52 * Nat.pow 2 (s + 1) := by
        rw [Nat.pow_eq, Nat.pow_eq, Nat.pow_eq, Nat.pow_eq, ← Nat.pow_add, ← Nat.pow_add]
        congr 1
        omega
      _ ≤ Nat.pow 2 52 * Nat.pow 2 (droppedBits q) :=
        Nat.mul_le_mul_left _ (Nat.pow_le_pow_right (by decide) (by omega))

/-- Rounding a quotient gives a magnitude that is as near to it as any other with a
significand of 53 bits. -/
theorem roundUnits_nearest (a : Nat) {b n : Nat} (hb : 0 < b) (hn : Fits n) :
    distance (roundUnits a b * b) a ≤ distance (n * b) a := by
  obtain ⟨k, hk⟩ := @exists_multiple_nearer n (a / b) hn
  unfold roundUnits
  generalize hp : Nat.pow 2 (droppedBits (a / b)) = p at hk ⊢
  have hpos : 0 < b * p := Nat.mul_pos hb (hp ▸ Nat.two_pow_pos _)
  have hmultiple := roundHalfEven_nearest a k hpos
  have hscale : ∀ r : Nat, (r : Int) * (b * p : Nat) = (r * p : Nat) * b := by
    intro r
    rw [Int.natCast_mul, Int.natCast_mul, Int.mul_assoc, Int.mul_comm (b : Int)]
  rw [hscale, hscale] at hmultiple
  refine Nat.le_trans hmultiple ?_
  rcases hk with rfl | ⟨hlow, hhigh⟩
  · exact Nat.le_refl _
  · have hbelow : (n : Int) * b ≤ (k * p : Nat) * (b : Int) := by
      exact_mod_cast Nat.mul_le_mul_right b hlow
    have habove : ((k * p : Nat) : Int) * b ≤ a := by
      exact_mod_cast Nat.le_trans (Nat.mul_le_mul_right b hhigh) (Nat.div_mul_le_self a b)
    unfold distance
    omega

/-! ## Doubles -/

/-- The signed units of a double.  The first magnitude past the finite ones stands for the
infinite doubles. -/
def extent? : Double → Option Int
  | .nan => none
  | .infinite negative => some (if negative then - (overflowUnits : Int) else overflowUnits)
  | .finite negative size => some (signed negative size)

/-- No double is nearer to `a / b` units, and the double is a number. -/
def Nearest (a : Int) (b : Nat) (x : Double) : Prop :=
  ∃ u, x.extent? = some u ∧ ∀ y v, extent? y = some v → distance (u * b) a ≤ distance (v * b) a

theorem fits_two_pow (s : Nat) : Fits (Nat.pow 2 s) := ⟨1, s, by decide, (Nat.one_mul _).symm⟩

theorem overflowUnits_fits : Fits overflowUnits := by
  unfold overflowUnits
  apply fits_two_pow

/-- What stands for a double has a significand of 53 bits and is not past the first
magnitude that is not finite. -/
theorem fits_of_extent? {y : Double} {v : Int} (h : y.extent? = some v) :
    Fits v.natAbs ∧ v.natAbs ≤ overflowUnits := by
  cases y with
  | nan => exact absurd h (by simp [extent?])
  | infinite negative =>
    obtain rfl := Option.some.inj h
    have habs : (if negative then - (overflowUnits : Int) else overflowUnits).natAbs =
        overflowUnits := by
      split <;> omega
    rw [habs]
    exact ⟨overflowUnits_fits, Nat.le_refl _⟩
  | finite negative size =>
    obtain rfl := Option.some.inj h
    rw [natAbs_signed]
    exact ⟨size.fits, Nat.le_of_lt size.bounded⟩

/-- Up to the first magnitude that is not finite, rounding finds a nearest one. -/
theorem min_roundUnits_nearest (a : Nat) {b n : Nat} (hb : 0 < b) (hn : Fits n)
    (hle : n ≤ overflowUnits) :
    distance ((min (roundUnits a b) overflowUnits : Nat) * b) a ≤ distance (n * b) a := by
  have hround := roundUnits_nearest a hb hn
  rcases Nat.le_total (roundUnits a b) overflowUnits with hfinite | hinfinite
  · rwa [Nat.min_eq_left hfinite]
  · -- both are cut off at the overflow, which lies between them and what is rounded
    rw [Nat.min_eq_right hinfinite]
    have hbelow : (n : Int) * b ≤ overflowUnits * (b : Int) := by
      exact_mod_cast Nat.mul_le_mul_right b hle
    have habove : (overflowUnits : Int) * b ≤ roundUnits a b * (b : Int) := by
      exact_mod_cast Nat.mul_le_mul_right b hinfinite
    unfold distance at hround ⊢
    omega

/-- Signs do not matter for which magnitude is the nearest. -/
theorem distance_signed_le {a b w : Nat} {v : Int} (negative : Bool)
    (h : distance (w * b) a ≤ distance (v.natAbs * b) a) :
    distance ((if negative then - (w : Int) else w) * b) (if negative then - (a : Int) else a) ≤
      distance (v * b) (if negative then - (a : Int) else a) := by
  have habs : (v.natAbs : Int) * b = (v * b).natAbs := by
    rw [Int.natAbs_mul, Int.natAbs_natCast, Int.natCast_mul]
  rw [habs] at h
  unfold distance at h ⊢
  cases negative with
  | false =>
    simp only [Bool.false_eq_true, if_false]
    omega
  | true =>
    simp only [if_true, Int.neg_mul]
    omega

/-- The double that a quotient is rounded to stands for the rounded magnitude, cut off at the
first one that is not finite. -/
theorem extent?_ofRatio (negative : Bool) (a b : Nat) :
    (ofRatio negative a b).extent? = some
      (if negative then - ((min (roundUnits a b) overflowUnits : Nat) : Int)
        else (min (roundUnits a b) overflowUnits : Nat)) := by
  unfold ofRatio
  split
  · rename_i hfinite
    rw [Nat.min_eq_left (Nat.le_of_lt hfinite)]
    rfl
  · rename_i hinfinite
    rw [Nat.min_eq_right (Nat.not_lt.mp hinfinite)]
    rfl

/-- The double that a quotient is rounded to is a nearest one. -/
theorem ofRatio_nearest (negative : Bool) (a : Nat) {b : Nat} (hb : 0 < b) :
    Nearest (if negative then - (a : Int) else a) b (ofRatio negative a b) := by
  refine ⟨_, extent?_ofRatio negative a b, ?_⟩
  intro y v hv
  obtain ⟨hfits, hle⟩ := fits_of_extent? hv
  exact distance_signed_le negative (min_roundUnits_nearest a hb hfits hle)

/-- The double of an integer is a nearest one. -/
theorem ofInt_nearest (n : Int) : Nearest (n * unitsPerOne) 1 (ofInt n) := by
  have hunits : (if decide (n < 0) then - ((n.natAbs * unitsPerOne : Nat) : Int)
      else (n.natAbs * unitsPerOne : Nat)) = n * unitsPerOne := by
    rw [Int.natCast_mul]
    by_cases hn : n < 0
    · rw [decide_eq_true hn, if_pos rfl, Int.ofNat_natAbs_of_nonpos (by omega), Int.neg_mul,
        Int.neg_neg]
    · rw [decide_eq_false hn, if_neg Bool.false_ne_true, Int.natAbs_of_nonneg (by omega)]
  rw [← hunits]
  exact ofRatio_nearest _ _ Nat.one_pos

end LineScript.Double
