import LineScript.Proofs.Nearest
import Mathlib.Algebra.Order.Ring.Abs
import Mathlib.Algebra.Order.Field.Basic
import Mathlib.Data.Rat.Cast.Order
import Mathlib.Tactic.Linarith

set_option autoImplicit false

/-!
# Correct rounding

Rounding finds a nearest double, and where two are equally near, the one whose significand is
even.  Here that rule is stated without the steps of rounding: a double is a number correctly
rounded if none is nearer, if its significand is even in case of a tie, and if it has the sign
that is asked for, which tells the two zeros apart (`IsRounded`).

Proved: quotients are correctly rounded (`ofRatio_isRounded`), and no other double of that sign
is a number correctly rounded (`IsRounded.unique`).
-/

namespace LineScript.Double

/-! ## Ties -/

/-- A whole number that is as near as the rounded one, and another, shows that the rounded
one is even. -/
theorem roundHalfEven_even_of_tie {a b k : Nat} (hb : 0 < b) (hne : k ≠ roundHalfEven a b)
    (htie : distance (k * b) a = distance (roundHalfEven a b * b) a) :
    roundHalfEven a b % 2 = 0 := by
  have hdiv : (a / b : Nat) * (b : Int) + (a % b : Nat) = a := by
    exact_mod_cast Nat.div_add_mod' a b
  have hmod : a % b < b := Nat.mod_lt a hb
  have hsucc : ∀ n : Nat, ((n + 1 : Nat) : Int) * b = n * (b : Int) + b := by
    intro n
    rw [Int.natCast_succ, Int.add_mul, Int.one_mul]
  have hmono : ∀ {m n : Nat}, m ≤ n → (m : Int) * b ≤ n * (b : Int) := fun h => by
    exact_mod_cast Nat.mul_le_mul_right b h
  unfold distance at htie
  unfold roundHalfEven at hne htie ⊢
  split at hne
  · -- below a half, the other neighbour and all beyond it are farther away
    rename_i hlow
    rw [if_pos hlow] at htie
    rcases Nat.lt_or_gt_of_ne hne with hlt | hgt
    · have hbelow := hmono hlt
      rw [Nat.succ_eq_add_one, hsucc] at hbelow
      omega
    · have habove := hmono hgt
      rw [Nat.succ_eq_add_one, hsucc] at habove
      omega
  · rename_i hlow
    rw [if_neg hlow] at htie ⊢
    split at hne
    · rename_i hhigh
      rw [if_pos hhigh, hsucc] at htie
      rcases Nat.lt_or_gt_of_ne hne with hlt | hgt
      · have hbelow := hmono (Nat.le_of_lt_succ hlt)
        omega
      · have habove := hmono hgt
        rw [Nat.succ_eq_add_one, hsucc, hsucc] at habove
        omega
    · rename_i hhigh
      rw [if_neg hhigh]
      omega

/-- A power of two is a multiple of every smaller one. -/
theorem two_pow_eq_mul {s t : Nat} (h : s ≤ t) :
    Nat.pow 2 t = Nat.pow 2 (t - s) * Nat.pow 2 s := by
  rw [Nat.pow_eq, Nat.pow_eq, Nat.pow_eq, ← Nat.pow_add, Nat.sub_add_cancel h]

/-- The magnitude can be written with an even significand of 53 bits. -/
def FitsEven (n : Nat) : Prop := ∃ m s, 2 * m < Nat.pow 2 53 ∧ n = 2 * m * Nat.pow 2 s

theorem fitsEven_zero : FitsEven 0 := ⟨0, 0, by decide, rfl⟩

theorem FitsEven.fits {n : Nat} (h : FitsEven n) : Fits n := by
  obtain ⟨m, s, hm, hn⟩ := h
  exact ⟨2 * m, s, hm, hn⟩

theorem fitsEven_two_pow_succ (s : Nat) : FitsEven (Nat.pow 2 (s + 1)) := by
  refine ⟨1, s, by decide, ?_⟩
  rw [Nat.pow_eq, Nat.pow_eq, Nat.pow_succ, Nat.mul_one, Nat.mul_comm]

theorem overflowUnits_fitsEven : FitsEven overflowUnits := by
  unfold overflowUnits
  apply fitsEven_two_pow_succ

/-- An even number of at most 53 bits, or the carry past them, is an even significand. -/
theorem fitsEven_of_even {r : Nat} (hr : r ≤ Nat.pow 2 53) (heven : r % 2 = 0) (s : Nat) :
    FitsEven (r * Nat.pow 2 s) := by
  rcases Nat.lt_or_eq_of_le hr with hlt | rfl
  · exact ⟨r / 2, s, by omega, by rw [Nat.mul_div_cancel' (Nat.dvd_of_mod_eq_zero heven)]⟩
  · rw [Nat.pow_eq, Nat.pow_eq, ← Nat.pow_add, show 53 + s = 52 + s + 1 by omega]
    exact fitsEven_two_pow_succ (52 + s)

/-- A magnitude that is as near as the rounded one, and another, shows that the rounded one
has an even significand. -/
theorem roundUnits_fitsEven_of_tie {a b n : Nat} (hb : 0 < b) (hn : Fits n)
    (hne : n ≠ roundUnits a b) (htie : distance (n * b) a = distance (roundUnits a b * b) a) :
    FitsEven (roundUnits a b) := by
  obtain ⟨k, hk⟩ := @exists_multiple_nearer n (a / b) hn
  have hbound : roundHalfEven a (b * Nat.pow 2 (droppedBits (a / b))) ≤ Nat.pow 2 53 := by
    have hq := div_dropped_lt (a / b)
    rw [Nat.div_div_eq_div_mul] at hq
    have hle := roundHalfEven_le a (b * Nat.pow 2 (droppedBits (a / b)))
    omega
  unfold roundUnits at hne htie ⊢
  generalize droppedBits (a / b) = s at hk hne htie hbound ⊢
  refine fitsEven_of_even hbound ?_ s
  have hpos : 0 < b * Nat.pow 2 s := Nat.mul_pos hb (Nat.two_pow_pos s)
  have hscale : ∀ r : Nat, ((r * Nat.pow 2 s : Nat) : Int) * b = r * (b * Nat.pow 2 s : Nat) := by
    intro r
    rw [Int.natCast_mul, Int.natCast_mul, Int.mul_assoc, Int.mul_comm (b : Int)]
  -- what is not a multiple of the last bit that rounding keeps is farther away
  have hmultiple : k * Nat.pow 2 s = n := by
    rcases hk with hk | ⟨hlow, hhigh⟩
    · exact hk
    · refine Nat.le_antisymm (Nat.not_lt.mp fun hlt => ?_) hlow
      have hnearest := roundHalfEven_nearest a k hpos
      rw [← hscale, ← hscale] at hnearest
      have hbelow : (n : Int) * b < (k * Nat.pow 2 s : Nat) * (b : Int) := by
        exact_mod_cast Nat.mul_lt_mul_of_pos_right hlt hb
      have habove : ((k * Nat.pow 2 s : Nat) : Int) * b ≤ a := by
        exact_mod_cast Nat.le_trans (Nat.mul_le_mul_right b hhigh) (Nat.div_mul_le_self a b)
      unfold distance at htie hnearest
      omega
  rw [← hmultiple, hscale, hscale] at htie
  refine roundHalfEven_even_of_tie hpos ?_ htie
  rintro rfl
  exact hne hmultiple.symm

/-- The same up to the first magnitude that is not finite, whose significand is even. -/
theorem min_roundUnits_fitsEven_of_tie {a b n : Nat} (hb : 0 < b) (hn : Fits n)
    (hne : n ≠ min (roundUnits a b) overflowUnits)
    (htie : distance (n * b) a = distance ((min (roundUnits a b) overflowUnits : Nat) * b) a) :
    FitsEven (min (roundUnits a b) overflowUnits) := by
  rcases Nat.le_total (roundUnits a b) overflowUnits with hfinite | hinfinite
  · rw [Nat.min_eq_left hfinite] at hne htie ⊢
    exact roundUnits_fitsEven_of_tie hb hn hne htie
  · rw [Nat.min_eq_right hinfinite]
    exact overflowUnits_fitsEven

/-! ## Correct rounding -/

/-- The sign of a double, which is kept by zeros and infinite ones.  The double that is no
number has none. -/
def negative? : Double → Option Bool
  | .nan => none
  | .infinite negative => some negative
  | .finite negative _ => some negative

/-- How far a number of units is from a rational number. -/
def gap (q : ℚ) (u : Int) : ℚ := |u - q * unitsPerOne|

/-- The double is the rational number, correctly rounded, and has the given sign: no double is
nearer, and if another one is as near, the significand is even. -/
structure IsRounded (negative : Bool) (q : ℚ) (x : Double) : Prop where
  negative?_eq : x.negative? = some negative
  exists_extent : ∃ u, x.extent? = some u ∧ ∀ y v, extent? y = some v →
    gap q u ≤ gap q v ∧ (v ≠ u → gap q v = gap q u → FitsEven u.natAbs)

/-- A gap is a distance of integers, over the denominator. -/
theorem gap_mul {q : ℚ} {a : Int} {b : Nat} (hb : 0 < b) (hq : q * unitsPerOne = a / b)
    (u : Int) : gap q u * b = distance (u * b) a := by
  have hb' : (0 : ℚ) < b := Nat.cast_pos.mpr hb
  have hcast : ((distance (u * b) a : Nat) : ℚ) = |(u * b - a : ℚ)| := by
    rw [distance, Nat.cast_natAbs]
    push_cast
    rfl
  calc gap q u * b = |(u - a / b : ℚ)| * |(b : ℚ)| := by rw [gap, hq, abs_of_pos hb']
    _ = |(u * b - a : ℚ)| := by rw [← abs_mul, sub_mul, div_mul_cancel₀ _ hb'.ne']
    _ = distance (u * b) a := hcast.symm

theorem gap_le_gap_iff {q : ℚ} {a : Int} {b : Nat} (hb : 0 < b)
    (hq : q * unitsPerOne = a / b) (u v : Int) :
    gap q u ≤ gap q v ↔ distance (u * b) a ≤ distance (v * b) a := by
  have hb' : (0 : ℚ) < b := Nat.cast_pos.mpr hb
  rw [← mul_le_mul_iff_left₀ hb', gap_mul hb hq, gap_mul hb hq, Nat.cast_le]

/-- A tie with any integer is one with its magnitude, unless the nearest is zero. -/
theorem tie_natAbs {a b w : Nat} {v : Int} (hb : 0 < b) (hzero : distance (w * b) a ≤ a)
    (hnearest : distance (w * b) a ≤ distance (v.natAbs * b) a) (hne : v ≠ w)
    (htie : distance (v * b) a = distance (w * b) a) :
    w = 0 ∨ v.natAbs ≠ w ∧ distance (v.natAbs * b) a = distance (w * b) a := by
  have habs : (v.natAbs : Int) * b = (v * b).natAbs := by
    rw [Int.natAbs_mul, Int.natAbs_natCast, Int.natCast_mul]
  rw [habs] at hnearest ⊢
  unfold distance at hzero hnearest htie ⊢
  by_cases hw : v.natAbs = w
  · left
    -- the two lie on either side of zero, and so does what is rounded to one of them
    obtain rfl : v = - (w : Int) := by omega
    rw [Int.neg_mul] at hnearest htie
    have hunits : (w : Int) * b = 0 := by omega
    rcases Int.mul_eq_zero.mp hunits with hw | hb'
    · omega
    · omega
  · exact Or.inr ⟨hw, by omega⟩

/-- The double that a quotient is rounded to is the correctly rounded one. -/
theorem ofRatio_isRounded (negative : Bool) (a : Nat) {b : Nat} (hb : 0 < b) {q : ℚ}
    (hq : q * unitsPerOne = (if negative then - (a : Int) else a : Int) / b) :
    (ofRatio negative a b).IsRounded negative q := by
  have hsign : (ofRatio negative a b).negative? = some negative := by
    unfold ofRatio
    split
    · rfl
    · rfl
  refine ⟨hsign, _, extent?_ofRatio negative a b, ?_⟩
  intro y v hv
  obtain ⟨hfits, hle⟩ := fits_of_extent? hv
  have hnearest := min_roundUnits_nearest a hb hfits hle
  refine ⟨(gap_le_gap_iff hb hq _ _).mpr (distance_signed_le negative hnearest), ?_⟩
  intro hne htie
  have htie' := le_antisymm ((gap_le_gap_iff hb hq _ _).mp htie.le)
    ((gap_le_gap_iff hb hq _ _).mp htie.ge)
  have hzero := min_roundUnits_nearest a hb fitsEven_zero.fits (Nat.zero_le _)
  have heven := @min_roundUnits_fitsEven_of_tie a b v.natAbs hb hfits
  generalize min (roundUnits a b) overflowUnits = w at hnearest hne htie' hzero heven ⊢
  rw [show distance ((0 : Nat) * b) a = a by simp [distance]] at hzero
  cases negative with
  | false =>
    simp only [Bool.false_eq_true, if_false] at hne htie' ⊢
    rcases tie_natAbs hb hzero hnearest hne htie' with rfl | ⟨hw, hmagnitudes⟩
    · exact fitsEven_zero
    · exact heven hw hmagnitudes
  | true =>
    simp only [if_true] at hne htie' ⊢
    rw [Int.natAbs_neg, Int.natAbs_natCast]
    rw [← Int.natAbs_neg] at hnearest heven
    have hmirrored : distance (-v * b) a = distance (w * b) a := by
      rw [Int.neg_mul] at htie' ⊢
      unfold distance at htie' ⊢
      omega
    rcases tie_natAbs hb hzero hnearest (by omega) hmirrored with rfl | ⟨hw, hmagnitudes⟩
    · exact fitsEven_zero
    · exact heven hw hmagnitudes

/-! ## One double for each number -/

/-- Between two magnitudes with even significands lies a third one. -/
theorem exists_fits_between {m n : Nat} (hm : FitsEven m) (hn : FitsEven n) (hlt : m < n) :
    ∃ k, Fits k ∧ m < k ∧ k < n := by
  obtain ⟨i, s, hi, rfl⟩ := hm
  obtain ⟨j, t, hj, rfl⟩ := hn
  have hodd : Nat.pow 2 53 % 2 = 0 := by decide
  -- the finer of the two grids has a point next to the significand that is on it
  rcases Nat.le_total s t with hst | hts
  · rw [two_pow_eq_mul hst, ← Nat.mul_assoc (2 * j), Nat.mul_assoc 2 j] at hlt ⊢
    have hlt' := Nat.lt_of_mul_lt_mul_right hlt
    refine ⟨(2 * i + 1) * Nat.pow 2 s, ⟨_, s, by omega, rfl⟩, ?_, ?_⟩
    · exact Nat.mul_lt_mul_of_pos_right (by omega) (Nat.two_pow_pos s)
    · exact Nat.mul_lt_mul_of_pos_right (by omega) (Nat.two_pow_pos s)
  · rw [two_pow_eq_mul hts, ← Nat.mul_assoc (2 * i), Nat.mul_assoc 2 i] at hlt ⊢
    have hlt' := Nat.lt_of_mul_lt_mul_right hlt
    refine ⟨(2 * j - 1) * Nat.pow 2 t, ⟨_, t, by omega, rfl⟩, ?_, ?_⟩
    · exact Nat.mul_lt_mul_of_pos_right (by omega) (Nat.two_pow_pos t)
    · exact Nat.mul_lt_mul_of_pos_right (by omega) (Nat.two_pow_pos t)

/-- Between two integers that are equally far lies nothing but what is nearer. -/
theorem gap_lt_of_between {q : ℚ} {u v w : Int} (heq : gap q u = gap q v) (hlow : u < w)
    (hhigh : w < v) : gap q w < gap q u := by
  have hlow' : (u : ℚ) < w := by exact_mod_cast hlow
  have hhigh' : (w : ℚ) < v := by exact_mod_cast hhigh
  have hmiddle : (u : ℚ) - q * unitsPerOne = -(v - q * unitsPerOne) := by
    rcases abs_eq_abs.mp heq with hsame | hopposite
    · linarith
    · exact hopposite
  rw [gap, gap, abs_of_neg (a := (u : ℚ) - _) (by linarith), abs_lt]
  constructor
  · linarith
  · linarith

/-- A double with a sign is infinite or finite. -/
theorem cases_of_negative? {x : Double} {negative : Bool} (h : x.negative? = some negative) :
    x = .infinite negative ∨ ∃ size, x = .finite negative size := by
  cases x with
  | nan => exact absurd h (by simp [negative?])
  | infinite s =>
    obtain rfl := Option.some.inj h
    exact Or.inl rfl
  | finite s size =>
    obtain rfl := Option.some.inj h
    exact Or.inr ⟨size, rfl⟩

/-- What stands for a double has its sign. -/
theorem extent?_eq_signed {x : Double} {negative : Bool} {u : Int}
    (hsign : x.negative? = some negative) (hu : x.extent? = some u) :
    u = if negative then - (u.natAbs : Int) else u.natAbs := by
  rcases cases_of_negative? hsign with rfl | ⟨size, rfl⟩
  · obtain rfl := Option.some.inj hu
    split
    · omega
    · omega
  · obtain rfl := Option.some.inj hu
    unfold signed
    split
    · omega
    · omega

/-- A double is determined by its sign and what stands for it. -/
theorem eq_of_extent?_eq {x y : Double} {negative : Bool} {u : Int}
    (hx : x.negative? = some negative) (hy : y.negative? = some negative)
    (hxu : x.extent? = some u) (hyu : y.extent? = some u) : x = y := by
  have hunits : ∀ size : Magnitude, (signed negative size).natAbs = size.units := by
    intro size
    unfold signed
    split
    · omega
    · omega
  have hinfinite : ∀ size : Magnitude,
      (infinite negative).extent? ≠ some (signed negative size) := by
    intro size h
    have habs := congrArg Int.natAbs (Option.some.inj h)
    have hbounded := size.bounded
    rw [hunits] at habs
    split at habs
    · omega
    · omega
  rcases cases_of_negative? hx with rfl | ⟨size, rfl⟩
  · rcases cases_of_negative? hy with rfl | ⟨size', rfl⟩
    · rfl
    · exact absurd (hxu.trans hyu.symm) (hinfinite size')
  · rcases cases_of_negative? hy with rfl | ⟨size', rfl⟩
    · exact absurd (hyu.trans hxu.symm) (hinfinite size)
    · have habs := congrArg Int.natAbs (Option.some.inj (hxu.trans hyu.symm))
      rw [hunits, hunits] at habs
      rw [Magnitude.ext habs]

/-- Between two doubles of one sign with even significands lies a third double. -/
theorem exists_extent_between {x y : Double} {negative : Bool} {u v : Int}
    (hx : x.negative? = some negative) (hy : y.negative? = some negative)
    (hu : x.extent? = some u) (hv : y.extent? = some v) (hue : FitsEven u.natAbs)
    (hve : FitsEven v.natAbs) (hlt : u < v) : ∃ z w, extent? z = some w ∧ u < w ∧ w < v := by
  have hus := extent?_eq_signed hx hu
  have hvs := extent?_eq_signed hy hv
  have hule := (fits_of_extent? hu).2
  have hvle := (fits_of_extent? hv).2
  cases negative with
  | false =>
    simp only [Bool.false_eq_true, if_false] at hus hvs
    obtain ⟨k, hk, hlow, hhigh⟩ := exists_fits_between hue hve (by omega)
    exact ⟨.finite false ⟨k, hk, by omega⟩, k, rfl, by omega, by omega⟩
  | true =>
    simp only [if_true] at hus hvs
    obtain ⟨k, hk, hlow, hhigh⟩ := exists_fits_between hve hue (by omega)
    exact ⟨.finite true ⟨k, hk, by omega⟩, -k, rfl, by omega, by omega⟩

/-- Of two correctly rounded doubles none is below the other: they would both have to have
even significands, and what lies between them would be nearer. -/
theorem IsRounded.extent_le {x y : Double} {negative : Bool} {q : ℚ}
    (hx : x.IsRounded negative q) (hy : y.IsRounded negative q) {u v : Int}
    (hu : x.extent? = some u) (hv : y.extent? = some v) : v ≤ u := by
  obtain ⟨u', hu', hxnearest⟩ := hx.exists_extent
  obtain ⟨v', hv', hynearest⟩ := hy.exists_extent
  obtain rfl := Option.some.inj (hu.symm.trans hu')
  obtain rfl := Option.some.inj (hv.symm.trans hv')
  refine Int.not_lt.mp fun hlt => ?_
  have heq : gap q u = gap q v := le_antisymm (hxnearest y v hv).1 (hynearest x u hu).1
  have hue : FitsEven u.natAbs := (hxnearest y v hv).2 (by omega) heq.symm
  have hve : FitsEven v.natAbs := (hynearest x u hu).2 (by omega) heq
  obtain ⟨z, w, hw, hlow, hhigh⟩ :=
    exists_extent_between hx.negative?_eq hy.negative?_eq hu hv hue hve hlt
  exact absurd (hxnearest z w hw).1 (not_le.mpr (gap_lt_of_between heq hlow hhigh))

/-- A rational number has one correctly rounded double of a sign. -/
theorem IsRounded.unique {x y : Double} {negative : Bool} {q : ℚ} (hx : x.IsRounded negative q)
    (hy : y.IsRounded negative q) : x = y := by
  obtain ⟨u, hu, -⟩ := hx.exists_extent
  obtain ⟨v, hv, -⟩ := hy.exists_extent
  obtain rfl : u = v := Int.le_antisymm (hy.extent_le hx hv hu) (hx.extent_le hy hu hv)
  exact eq_of_extent?_eq hx.negative?_eq hy.negative?_eq hu hv

end LineScript.Double
