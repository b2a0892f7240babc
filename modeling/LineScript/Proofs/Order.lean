import LineScript.Condition
import LineScript.Proofs.Doubles
import Mathlib.Data.Rat.Cast.Order
import Mathlib.Order.WithBot

set_option autoImplicit false

/-!
# The order of values

Numbers are compared in units of the smallest double, so that no comparison rounds.  Here
the same is said without units: every number but one has an exact value on the rational
line with its two ends, and the comparisons of numbers are those of their exact values.
Values of any kinds are compared through the numbers that they are read as, except for two
texts or two truth values that are tested for equality.

Proved: the comparisons are exact (`Number.same_iff`, `Number.less_iff`,
`Number.atMost_iff`), equality goes through numbers unless it is asked of two texts
(`Value.agrees_eq_same`), and so equality and the four order signs fit together on values of
any kinds (`Value.comparisons_cohere`).
-/

namespace LineScript

namespace Number

/-! ## Exact values -/

/-- The rational line with its two ends. -/
abbrev Extended := WithBot (WithTop ℚ)

/-- A rational number on the extended line. -/
def Extended.ofRat (q : ℚ) : Extended := ((q : WithTop ℚ) : WithBot (WithTop ℚ))

/-- The exact value of a number.  The double that is no number has none. -/
def value? : Number → Option Extended
  | .int n => some (.ofRat n)
  | .double .nan => none
  | .double (.infinite negative) => some (if negative then ⊥ else ⊤)
  | .double (.finite negative size) =>
    some (.ofRat (Double.signed negative size / Double.unitsPerOne))

/-- The exact value at a place. -/
def Place.value : Place → Extended
  | .bottom => ⊥
  | .units n => .ofRat (n / Double.unitsPerOne)
  | .top => ⊤

theorem Extended.ofRat_lt_ofRat {p q : ℚ} : Extended.ofRat p < .ofRat q ↔ p < q := by
  rw [ofRat, ofRat, WithBot.coe_lt_coe, WithTop.coe_lt_coe]

theorem Extended.bot_lt_ofRat (q : ℚ) : ⊥ < Extended.ofRat q := WithBot.bot_lt_coe _

theorem Extended.ofRat_lt_top (q : ℚ) : Extended.ofRat q < ⊤ :=
  WithBot.coe_lt_coe.mpr (WithTop.coe_lt_top q)

theorem unitsPerOne_pos_rat : (0 : ℚ) < Double.unitsPerOne :=
  Nat.cast_pos.mpr Double.unitsPerOne_pos

/-- A place is before another exactly if its value is smaller. -/
theorem Place.before_iff (p q : Place) : p.before q = true ↔ p.value < q.value := by
  have hends : (⊥ : Extended) < ⊤ := WithBot.bot_lt_coe _
  cases p with
  | bottom =>
    cases q with
    | bottom => exact iff_of_false Bool.false_ne_true (lt_irrefl _)
    | units n => exact iff_of_true rfl (Extended.bot_lt_ofRat _)
    | top => exact iff_of_true rfl hends
  | units m =>
    cases q with
    | bottom => exact iff_of_false Bool.false_ne_true not_lt_bot
    | units n =>
      rw [before, value, value, decide_eq_true_eq, Extended.ofRat_lt_ofRat,
        div_lt_div_iff_of_pos_right unitsPerOne_pos_rat, Int.cast_lt]
    | top => exact iff_of_true rfl (Extended.ofRat_lt_top _)
  | top => exact iff_of_false Bool.false_ne_true not_top_lt

theorem Place.eq_or_before (p q : Place) : p = q ∨ p.before q = true ∨ q.before p = true := by
  cases p with
  | bottom => cases q <;> simp [before]
  | top => cases q <;> simp [before]
  | units m =>
    cases q with
    | bottom => simp [before]
    | top => simp [before]
    | units n =>
      simp only [before, decide_eq_true_eq, units.injEq]
      omega

/-- Places with the same value are the same. -/
theorem Place.value_inj {p q : Place} : p.value = q.value ↔ p = q := by
  refine ⟨fun h => ?_, congrArg value⟩
  rcases p.eq_or_before q with heq | hlt | hgt
  · exact heq
  · exact absurd h ((before_iff p q).mp hlt).ne
  · exact absurd h.symm ((before_iff q p).mp hgt).ne

/-- The exact value of a number is the value at its place. -/
theorem value?_eq (x : Number) : x.value? = x.place?.map Place.value := by
  cases x with
  | int n =>
    rw [value?, place?, Option.map_some, Place.value, Int.cast_mul, Int.cast_natCast,
      mul_div_cancel_right₀ _ unitsPerOne_pos_rat.ne']
  | double x =>
    cases x with
    | nan => rfl
    | infinite negative =>
      cases negative with
      | false => rfl
      | true => rfl
    | finite negative size => rfl

theorem isNaN_iff (x : Number) : x.isNaN = true ↔ x.value? = none := by
  rw [isNaN_eq, value?_eq, Option.isNone_iff_eq_none, Option.map_eq_none_iff]

/-- A comparison of places is one of exact values, if both numbers have one. -/
theorem compare_iff {holds : Place → Place → Bool} {related : Extended → Extended → Prop}
    (h : ∀ p q : Place, holds p q = true ↔ related p.value q.value) (x y : Number) :
    compare holds x y = true ↔
      ∃ p q, x.value? = some p ∧ y.value? = some q ∧ related p q := by
  rw [compare, value?_eq, value?_eq]
  cases x.place? with
  | none => simp
  | some p =>
    cases y.place? with
    | none => simp
    | some q => simp [h]

theorem same_iff (x y : Number) :
    x.same y = true ↔ ∃ p q, x.value? = some p ∧ y.value? = some q ∧ p = q :=
  compare_iff (fun p q => by rw [decide_eq_true_eq, Place.value_inj]) x y

theorem less_iff (x y : Number) :
    x.less y = true ↔ ∃ p q, x.value? = some p ∧ y.value? = some q ∧ p < q :=
  compare_iff Place.before_iff x y

theorem atMost_iff (x y : Number) :
    x.atMost y = true ↔ ∃ p q, x.value? = some p ∧ y.value? = some q ∧ p ≤ q := by
  refine compare_iff (fun p q => ?_) x y
  rw [Bool.not_eq_true', Bool.eq_false_iff, ne_eq, Place.before_iff, not_lt]

theorem same_comm (x y : Number) : x.same y = y.same x := by
  rw [Bool.eq_iff_iff, same_iff, same_iff]
  constructor
  · rintro ⟨p, q, hx, hy, rfl⟩
    exact ⟨p, p, hy, hx, rfl⟩
  · rintro ⟨p, q, hy, hx, rfl⟩
    exact ⟨p, p, hx, hy, rfl⟩

/-! ## The order of numbers -/

theorem exists_value? {x : Number} (h : x.isNaN = false) : ∃ p, x.value? = some p := by
  rw [← Option.isSome_iff_exists, Option.isSome_iff_ne_none, ne_eq, ← isNaN_iff, h]
  exact Bool.false_ne_true

/-- Nothing is to be compared with what has no value. -/
theorem compare_of_isNaN (holds : Place → Place → Bool) {x y : Number}
    (h : x.isNaN = true ∨ y.isNaN = true) : compare holds x y = false := by
  rw [isNaN_eq, isNaN_eq, Option.isNone_iff_eq_none, Option.isNone_iff_eq_none] at h
  rw [compare]
  rcases h with h | h
  · rw [h]
  · rw [h]
    cases x.place? with
    | none => rfl
    | some p => rfl

theorem same_iff_atMost (x y : Number) :
    x.same y = true ↔ y.atMost x = true ∧ x.atMost y = true := by
  rw [same_iff, atMost_iff, atMost_iff]
  constructor
  · rintro ⟨p, q, hx, hy, rfl⟩
    exact ⟨⟨p, p, hy, hx, le_rfl⟩, ⟨p, p, hx, hy, le_rfl⟩⟩
  · rintro ⟨⟨q, p, hy, hx, hge⟩, ⟨p', q', hx', hy', hle⟩⟩
    obtain rfl := Option.some.inj (hx.symm.trans hx')
    obtain rfl := Option.some.inj (hy.symm.trans hy')
    exact ⟨p, q, hx, hy, le_antisymm hle hge⟩

theorem less_trans {x y z : Number} (hxy : x.less y = true) (hyz : y.less z = true) :
    x.less z = true := by
  rw [less_iff] at hxy hyz ⊢
  obtain ⟨p, q, hx, hy, hpq⟩ := hxy
  obtain ⟨q', r, hy', hz, hqr⟩ := hyz
  obtain rfl := Option.some.inj (hy.symm.trans hy')
  exact ⟨p, r, hx, hz, hpq.trans hqr⟩

section

variable {x y : Number} (hx : x.isNaN = false) (hy : y.isNaN = false)
include hx hy

theorem atMost_eq_not_less : x.atMost y = !y.less x := by
  obtain ⟨p, hp⟩ := exists_value? hx
  obtain ⟨q, hq⟩ := exists_value? hy
  rw [Bool.eq_iff_iff, Bool.not_eq_true', Bool.eq_false_iff, ne_eq, atMost_iff, less_iff, hp, hq]
  simp

/-- Of two numbers that have values one is below the other, or they are the same. -/
theorem count_less_same_greater : [x.less y, x.same y, y.less x].count true = 1 := by
  obtain ⟨p, hp⟩ := exists_value? hx
  obtain ⟨q, hq⟩ := exists_value? hy
  have hless : x.less y = decide (p < q) := by
    rw [Bool.eq_iff_iff, less_iff, hp, hq]
    simp
  have hsame : x.same y = decide (p = q) := by
    rw [Bool.eq_iff_iff, same_iff, hp, hq]
    simp [eq_comm]
  have hgreater : y.less x = decide (q < p) := by
    rw [Bool.eq_iff_iff, less_iff, hp, hq]
    simp
  rw [hless, hsame, hgreater]
  rcases lt_trichotomy p q with hlt | rfl | hgt
  · simp [hlt, hlt.ne, hlt.not_gt]
  · simp
  · simp [hgt, hgt.ne', hgt.not_gt]

end

end Number

/-! ## Values of any kinds -/

namespace Value

/-- Unless both values are texts, they agree if they are read as the same number. -/
theorem agrees_eq_same {a b : Value} (h : ¬ ∃ s t, a = .text s ∧ b = .text t) :
    a.agrees b = a.asNumber.same b.asNumber := by
  cases a with
  | num m => rfl
  | text s =>
    cases b with
    | num n => rfl
    | text t => exact absurd ⟨s, t, rfl, rfl⟩ h
    | bool d => rfl
  | bool c =>
    cases b with
    | num n => rfl
    | text t => rfl
    | bool d =>
      rw [agrees, Bool.eq_iff_iff, Number.same_iff, asNumber, asNumber]
      cases c <;> cases d <;> simp [Number.value?, Number.Extended.ofRat]

theorem agrees_comm (a b : Value) : a.agrees b = b.agrees a := by
  by_cases h : ∃ s t, a = .text s ∧ b = .text t
  · obtain ⟨s, t, rfl, rfl⟩ := h
    rw [agrees, agrees, Bool.eq_iff_iff, decide_eq_true_eq, decide_eq_true_eq, eq_comm]
  · have hswap : ¬ ∃ s t, b = .text s ∧ a = .text t :=
      fun ⟨s, t, hb, ha⟩ => h ⟨t, s, ha, hb⟩
    rw [agrees_eq_same h, agrees_eq_same hswap, Number.same_comm]

/-- Equality is symmetric, and unless it is asked of two texts it holds where both
`a >= b` and `a <= b` do.  Next to a value that is read as no number none of the four order
signs holds.  Two others are in exactly one of the three relations, each sign is the
opposite of its counterpart, and what is below a value that is below a third is below the
third. -/
theorem comparisons_cohere (a b c : Value) :
    a.agrees b = b.agrees a ∧
    ((¬ ∃ s t, a = .text s ∧ b = .text t) →
      (a.agrees b = true ↔
        Comparison.atLeast.holds a b = true ∧ Comparison.atMost.holds a b = true)) ∧
    (a.asNumber.isNaN = true ∨ b.asNumber.isNaN = true →
      ∀ op ∈ [Comparison.less, .atMost, .greater, .atLeast], op.holds a b = false) ∧
    (a.asNumber.isNaN = false → b.asNumber.isNaN = false →
      [Comparison.less.holds a b, a.asNumber.same b.asNumber,
        Comparison.greater.holds a b].count true = 1 ∧
      Comparison.atMost.holds a b = !Comparison.greater.holds a b ∧
      Comparison.atLeast.holds a b = !Comparison.less.holds a b) ∧
    (a.asNumber.isNaN = false → b.asNumber.isNaN = false → c.asNumber.isNaN = false →
      Comparison.less.holds a b = true → Comparison.less.holds b c = true →
      Comparison.less.holds a c = true) := by
  refine ⟨agrees_comm a b, ?_, ?_, ?_, ?_⟩
  · intro h
    rw [agrees_eq_same h]
    exact Number.same_iff_atMost a.asNumber b.asNumber
  · intro h op hop
    have hswap := h.symm
    simp only [List.mem_cons, List.not_mem_nil, or_false] at hop
    rcases hop with rfl | rfl | rfl | rfl
    · exact Number.compare_of_isNaN _ h
    · exact Number.compare_of_isNaN _ h
    · exact Number.compare_of_isNaN _ hswap
    · exact Number.compare_of_isNaN _ hswap
  · intro ha hb
    exact ⟨Number.count_less_same_greater ha hb, Number.atMost_eq_not_less ha hb,
      Number.atMost_eq_not_less hb ha⟩
  · intro _ _ _ hab hbc
    exact Number.less_trans hab hbc

/-- A truth value, a text and an integer in ascending order. -/
theorem mixedKinds_ascend :
    Comparison.less.holds (.bool true) (.text " 1.5 ".toList) = true ∧
    Comparison.less.holds (.text " 1.5 ".toList) (.int 2) = true ∧
    Comparison.less.holds (.bool true) (.int 2) = true ∧
    Comparison.atLeast.holds (.bool true) (.text " 1.5 ".toList) = false ∧
    (Value.agrees (.bool true) (.text " 1.5 ".toList) = true ↔
      Comparison.atLeast.holds (.bool true) (.text " 1.5 ".toList) = true ∧
        Comparison.atMost.holds (.bool true) (.text " 1.5 ".toList) = true) ∧
    Comparison.less.holds (.bool true) (.text "one".toList) = false := by
  have hbool : (Value.bool true).asNumber.isNaN = false := by decide +kernel
  have htext : (Value.text " 1.5 ".toList).asNumber.isNaN = false := by decide +kernel
  have hint : (Value.int 2).asNumber.isNaN = false := by decide +kernel
  have hword : (Value.text "one".toList).asNumber.isNaN = true := by decide +kernel
  have hfirst : Comparison.less.holds (.bool true) (.text " 1.5 ".toList) = true := by
    decide +kernel
  have hsecond : Comparison.less.holds (.text " 1.5 ".toList) (.int 2) = true := by
    decide +kernel
  obtain ⟨-, hagrees, -, hpair, htrans⟩ :=
    comparisons_cohere (.bool true) (.text " 1.5 ".toList) (.int 2)
  obtain ⟨-, -, hnone, -, -⟩ := comparisons_cohere (.bool true) (.text "one".toList) (.int 2)
  refine ⟨hfirst, hsecond, htrans hbool htext hint hfirst hsecond, ?_, hagrees ?_, ?_⟩
  · rw [(hpair hbool htext).2.2, hfirst]
    rfl
  · rintro ⟨s, t, hs, -⟩
    exact absurd hs (by simp)
  · exact hnone (Or.inr hword) .less List.mem_cons_self

end Value

end LineScript
