import LineScript.Proofs.Lockstep
import LineScript.Proofs.Rounding

set_option autoImplicit false

/-!
# Doubles for all numbers

The language as it would be with doubles for its only numbers: a literal is the double
nearest to it, an unbound name, a missing source and an operand that is no number are the
positive zero, and the operations are those of doubles, except that a quotient by a zero
is the positive zero (`Doubles.actions`).  A number of the language and a double of this
variant are matched if the double is the one nearest to the number, up to the sign of a
zero, and the number is safe.

Proved: the operations take matched numbers to matched ones, also where a result is past
the safe limit (`Operator.apply_matches`); a literal is matched, long or short
(`Number.ofLiteral_matches`); and matched numbers have one place among the numbers and one
text (`Number.Matches.place?_eq`, `Number.Matches.written_eq`).
-/

namespace LineScript

/-! ## The variant -/

namespace Doubles

/-- What a name can be bound to. -/
inductive Value where
  | number (x : Double)
  | text (t : Text)
  deriving DecidableEq, Inhabited

namespace Value

/-- The value of what is not there. -/
def zero : Value := .number (.zero false)

/-- The value as an operand of arithmetic. -/
def operand : Value → Double
  | .number x => x
  | .text _ => .zero false

/-- The value as one side of a comparison. -/
def compared : Value → Double
  | .number x => x
  | .text t =>
    if Text.strip t = [] then .zero false
    else match Decimal.ofNumericText? (Text.strip t) with
      | some d => .ofDecimal d
      | none => .nan

/-- Equality: two texts are compared as they are, any other two values as numbers. -/
def agrees : Value → Value → Bool
  | .text s, .text t => s = t
  | v, w => Number.same (.double v.compared) (.double w.compared)

/-- The value counts as true in a condition. -/
def countsAsTrue : Value → Bool
  | .number x => x ≠ .nan && !x.isZero
  | .text t => t ≠ []

/-- The text that printing a value adds to the output. -/
def written : Value → Text
  | .number x => Number.writtenDouble x
  | .text t => t

end Value

/-- The quotient, which for a zero divisor is zero. -/
def divide (x y : Double) : Double := if y.isZero then .zero false else x.div y

/-- The result of an operation. -/
def apply : Operator → Double → Double → Double
  | .add => Double.add
  | .sub => Double.sub
  | .mul => Double.mul
  | .div => divide

/-- The double nearest to a literal. -/
def ofLiteral (e : Text) : Double :=
  match Decimal.Literal.ofText? e with
  | some l => .ofDecimal l.decimal
  | none => .zero false

/-- What every name reads as. -/
abbrev Environment := Text → Value

/-- The value of an expression, with a budget for the depth of its operands. -/
def eval (env : Environment) : Nat → Text → Except Fault Value
  | 0, _ => .error .nestingTooDeep
  | budget + 1, t =>
    match Expression.shape (Text.strip t) with
    | .quoted body => .ok (.text body)
    | .literal e => .ok (.number (ofLiteral e))
    | .name x => .ok (env x)
    | .plain e => .ok (.text e)
    | .binary op left right => do
      let x ← eval env budget left
      let y ← eval env budget right
      return .number (apply op x.operand y.operand)

/-- The comparison holds between two values. -/
def compare : Comparison → Value → Value → Bool
  | .atLeast, v, w => Number.atMost (.double w.compared) (.double v.compared)
  | .atMost, v, w => Number.atMost (.double v.compared) (.double w.compared)
  | .greater, v, w => Number.less (.double w.compared) (.double v.compared)
  | .less, v, w => Number.less (.double v.compared) (.double w.compared)
  | .equal, v, w => v.agrees w
  | .unequal, v, w => !v.agrees w

/-- Whether a condition holds. -/
def test (env : Environment) (budget : Nat) (t : Text) : Except Fault Bool :=
  match Condition.split? (Text.strip t) with
  | some (op, left, right) => do
    let v ← eval env budget left
    let w ← eval env budget right
    return compare op v w
  | none => do
    let v ← eval env budget (Text.strip t)
    return v.countsAsTrue

/-- The entry that printing an argument adds to the output. -/
def entryOf (env : Environment) (budget : Nat) (argument : Text) : Except Fault Text :=
  if Text.strip argument = [] then .ok []
  else do
    let v ← eval env budget (Text.strip argument)
    return v.written

/-- Bind several names in order, each to the value at its position, and to zero where the
values have run out. -/
def bind (env : Environment) : List Text → List Value → Environment
  | [], _ => env
  | name :: names, [] => bind (fun x => if x = name then .zero else env x) names []
  | name :: names, v :: values => bind (fun x => if x = name then v else env x) names values

/-- What a run has bound and printed so far. -/
structure State where
  env : Environment := fun _ => .zero
  output : Array Text := #[]

/-- Go on with a result, or end with its fault in the state as it is. -/
def proceed {α β : Type} (s : State) (go : β → EStateM.Result Fault State α) :
    Except Fault β → EStateM.Result Fault State α
  | .ok b => go b
  | .error f => .error f s

/-- What the statements do. -/
def actions : Actions State where
  assign budget a s :=
    proceed s (fun values => .ok () { s with env := bind s.env a.targets values })
      (a.sources.mapM (eval s.env budget))
  print budget argument s :=
    match argument with
    | none => .ok () s
    | some argument =>
      proceed s (fun entry => .ok () { s with output := s.output.push entry })
        (entryOf s.env budget argument)
  holds budget condition s := proceed s (fun b => .ok b s) (test s.env budget condition)

/-- Run a program under a cap on its loops. -/
def ofProgram (cap : Int) (code : Text) : Outcome :=
  .ofActions actions State.output {} cap code

end Doubles

/-! ## Matched numbers -/

namespace Number

/-- The double nearest to the number. -/
def asDouble : Number → Double
  | .int n => .ofInt n
  | .double x => x

/-- The number is safe, and the double is the one nearest to it, up to the sign of a
zero. -/
def Matches (n : Number) (x : Double) : Prop := n.Safe ∧ Double.Alike n.asDouble x

theorem asDouble_normalize (n : Number) : n.normalize.asDouble = n.asDouble := by
  cases n with
  | double x => rfl
  | int n =>
    rw [normalize]
    split
    · rfl
    · rfl

theorem matches_normalize {n : Number} {x : Double} (h : Double.Alike n.asDouble x) :
    n.normalize.Matches x := by
  refine ⟨normalize_safe n, ?_⟩
  rw [asDouble_normalize]
  exact h

theorem matches_zero (s : Bool) : Matches (.int 0) (.zero s) :=
  ⟨Nat.zero_le _, Or.inr ⟨Double.isZero_ofInt_zero, Double.isZero_zero s⟩⟩

theorem toDouble_eq_asDouble {n : Number} (h : n.Safe) : n.toDouble = .ok n.asDouble := by
  cases n with
  | double x => rfl
  | int n =>
    obtain ⟨size, hn, -⟩ := Double.ofInt_of_safe h
    rw [toDouble, asDouble, hn]
    rfl

/-! ### Places -/

/-- The place of a safe number is the place of its double. -/
theorem place?_asDouble {n : Number} (h : n.Safe) :
    (Number.double n.asDouble).place? = n.place? := by
  cases n with
  | double x => rfl
  | int n =>
    obtain ⟨size, hn, hsize⟩ := Double.ofInt_of_safe h
    rw [asDouble, hn, place?, place?, Double.signed_ofInt hsize]

theorem place?_of_isZero {x : Double} (h : x.isZero = true) :
    (Number.double x).place? = some (.units 0) := by
  obtain ⟨s, size, rfl, hsize⟩ := Double.eq_finite_of_isZero h
  rw [place?, Double.signed_of_units_eq_zero hsize]

/-- Matched numbers have the same place among the numbers. -/
theorem Matches.place?_eq {n : Number} {x : Double} (h : n.Matches x) :
    n.place? = (Number.double x).place? := by
  rw [← place?_asDouble h.1]
  rcases h.2 with heq | ⟨hn, hx⟩
  · rw [heq]
  · rw [place?_of_isZero hn, place?_of_isZero hx]

theorem isNaN_eq (n : Number) : n.isNaN = n.place?.isNone := by
  cases n with
  | int n => rfl
  | double x =>
    cases x with
    | nan => rfl
    | infinite s => rfl
    | finite s size => rfl

theorem Matches.isZero_eq {n : Number} {x : Double} (h : n.Matches x) :
    n.isZero = x.isZero := by
  rw [← isZero_double, isZero, isZero, same, compare, compare, h.place?_eq]

theorem Matches.isNaN_eq {n : Number} {x : Double} (h : n.Matches x) :
    n.isNaN = decide (x = .nan) := by
  rw [Number.isNaN_eq, h.place?_eq, ← Number.isNaN_eq, isNaN]
  simp only [Number.double.injEq]

/-! ### Texts -/

/-- A whole number below the plain limit is written like an integer. -/
theorem writtenDouble_whole {negative : Bool} {size : Double.Magnitude} {n : Int}
    (hsigned : Double.signed negative size = n * Double.unitsPerOne)
    (h : n.natAbs < plainLimit) : writtenDouble (.finite negative size) = Text.ofInt n := by
  have hsize : size.units = n.natAbs * Double.unitsPerOne := by
    rw [← Double.natAbs_signed negative size, hsigned, Int.natAbs_mul, Int.natAbs_natCast]
  have htruncate : Double.truncate negative size = n := by
    have hunits : (Double.unitsPerOne : Int) ≠ 0 := by have := Double.unitsPerOne_pos; omega
    refine Int.eq_of_mul_eq_mul_right hunits ?_
    rw [← hsigned, Double.truncate, Double.signed, hsize,
      Nat.mul_div_cancel _ Double.unitsPerOne_pos, Int.natCast_mul]
    split
    · rw [Int.neg_mul]
    · rfl
  have hplain := Nat.mul_lt_mul_of_pos_right h Double.unitsPerOne_pos
  rw [writtenDouble, Double.Magnitude.isWhole, hsize, Nat.mul_mod_left, htruncate]
  rw [if_pos (by simpa using hplain)]

theorem writtenDouble_of_isZero {x : Double} (h : x.isZero = true) :
    writtenDouble x = Text.ofInt 0 := by
  obtain ⟨s, size, rfl, hsize⟩ := Double.eq_finite_of_isZero h
  refine writtenDouble_whole ?_ (by decide)
  rw [Double.signed_of_units_eq_zero hsize, Int.zero_mul]

/-- A safe integer is written like its double. -/
theorem writtenDouble_ofInt {n : Int} (h : n.natAbs ≤ safeLimit) :
    writtenDouble (.ofInt n) = Text.ofInt n := by
  obtain ⟨size, hn, hsize⟩ := Double.ofInt_of_safe h
  rw [hn]
  exact writtenDouble_whole (Double.signed_ofInt hsize) (Nat.lt_of_le_of_lt h (by decide))

/-- Matched numbers have the same text. -/
theorem Matches.written_eq {n : Number} {x : Double} (h : n.Matches x) :
    n.written = .ok (writtenDouble x) := by
  have halike : writtenDouble n.asDouble = writtenDouble x := by
    rcases h.2 with heq | ⟨hn, hx⟩
    · rw [heq]
    · rw [writtenDouble_of_isZero hn, writtenDouble_of_isZero hx]
  rw [← halike]
  cases n with
  | double y => rfl
  | int m =>
    obtain ⟨t, ht⟩ := written_of_safe h.1
    rw [asDouble, writtenDouble_ofInt h.1, written]
    rw [written] at ht
    split at ht
    · exact absurd ht (by simp)
    · rename_i hshort
      rw [if_neg hshort]

/-! ### Arithmetic -/

section

variable {x y : Number} {dx dy : Double} (hx : x.Matches dx) (hy : y.Matches dy)
include hx hy

/-- An operation that rounds exact results to what the operation on doubles gives, up to
the sign of a zero, takes matched numbers to matched ones. -/
theorem lift_matches {exact : Int → Int → Int} {rounded : Double → Double → Double}
    (hexact : ∀ {m n : Int}, m.natAbs ≤ safeLimit → n.natAbs ≤ safeLimit →
      Double.Alike (.ofInt (exact m n)) (rounded (.ofInt m) (.ofInt n)))
    (hrounded : ∀ {a a' b b' : Double}, Double.Alike a a' → Double.Alike b b' →
      Double.Alike (rounded a b) (rounded a' b')) :
    ∃ z, lift exact rounded x y = .ok z ∧ z.normalize.Matches (rounded dx dy) := by
  have hdouble : Double.Alike (rounded x.asDouble y.asDouble) (rounded dx dy) :=
    hrounded hx.2 hy.2
  unfold lift
  split
  · exact ⟨_, rfl, matches_normalize ((hexact hx.1 hy.1).trans hdouble)⟩
  · refine ⟨.double (rounded x.asDouble y.asDouble), ?_, matches_normalize hdouble⟩
    rw [toDouble_eq_asDouble hx.1, toDouble_eq_asDouble hy.1]
    rfl

theorem divide_matches :
    ∃ z, divide x y = .ok z ∧ z.normalize.Matches (Doubles.divide dx dy) := by
  rw [divide_eq, Doubles.divide]
  rw [hy.isZero_eq]
  cases hzero : dy.isZero with
  | true => exact ⟨.int 0, rfl, matches_normalize (matches_zero false).2⟩
  | false =>
    -- a divisor that is no zero is the same double on both sides
    have hdy : y.asDouble = dy := by
      rcases hy.2 with heq | ⟨-, hdy⟩
      · exact heq
      · exact absurd (hzero.symm.trans hdy) (by simp)
    have hquotient : Double.Alike (x.asDouble.div y.asDouble) (dx.div dy) := by
      rw [hdy]
      exact hx.2.div_left dy
    rw [if_neg Bool.false_ne_true, if_neg Bool.false_ne_true]
    split
    · rename_i m n
      have hn : n ≠ 0 := by
        rintro rfl
        rw [← hdy, asDouble, Double.isZero_ofInt_zero] at hzero
        exact absurd hzero (by simp)
      refine ⟨.double (ratio m n), ?_, matches_normalize ?_⟩
      · rw [isInfinite_ratio n hx.1]
        rfl
      · rw [asDouble, Double.div_ofInt hx.1 hy.1 hn]
        exact hquotient
    · refine ⟨.double (x.asDouble.div y.asDouble), ?_, matches_normalize hquotient⟩
      rw [toDouble_eq_asDouble hx.1, toDouble_eq_asDouble hy.1]
      rfl

end

/-! ### Literals -/

theorem ofDecimal_whole (negative : Bool) {n : Nat} (hn : n ≠ 0) :
    Double.ofDecimal ⟨negative, n, 0⟩ = .ofRatio negative (n * Double.unitsPerOne) 1 := by
  have hnear : ¬ (310 : Int) ≤ 0 := by decide
  have hreach : ¬ (n.log2 : Int) + 1 + 3 * 0 ≤ -1100 := by omega
  rw [Double.ofDecimal, if_neg hn]
  simp only [if_neg hnear, if_neg hreach]
  rw [Nat.pow_eq, Nat.pow_zero, Nat.mul_one]

/-- A whole decimal that is not zero is read like an integer. -/
theorem ofDecimal_eq_ofInt (negative : Bool) {n : Nat} (hn : n ≠ 0) :
    Double.ofDecimal ⟨negative, n, 0⟩ = .ofInt (if negative then - (n : Int) else n) := by
  have hsign : decide ((if negative then - (n : Int) else n) < 0) = negative := by
    cases negative with
    | false => exact decide_eq_false (by simp)
    | true => exact decide_eq_true (by simp; omega)
  have hsize : (if negative then - (n : Int) else n).natAbs = n := by
    split
    · omega
    · omega
  rw [Double.ofInt, hsign, hsize, ofDecimal_whole negative hn]

/-- A whole decimal is read like an integer, up to the sign of a zero. -/
theorem alike_ofDecimal (negative : Bool) (n : Nat) :
    Double.Alike (.ofInt (if negative then - (n : Int) else n)) (.ofDecimal ⟨negative, n, 0⟩) := by
  by_cases hn : n = 0
  · have hzero : (if negative then - (n : Int) else n) = 0 := by
      rw [hn]
      split
      · rfl
      · rfl
    rw [hzero, Double.ofDecimal, if_pos hn]
    exact Or.inr ⟨Double.isZero_ofInt_zero, Double.isZero_zero negative⟩
  · rw [ofDecimal_eq_ofInt negative hn]
    exact Double.alike_refl _

/-- A literal is matched by the double nearest to it. -/
theorem ofLiteral_matches (length : Nat) (l : Decimal.Literal) :
    (ofLiteral length l).Matches (.ofDecimal l.decimal) := by
  unfold ofLiteral
  split
  · exact ⟨trivial, Double.alike_refl _⟩
  · rename_i hwhole
    have hfraction : l.fraction = none := by
      cases hf : l.fraction with
      | none => rfl
      | some f => exact absurd (Or.inl (by rw [hf]; rfl)) hwhole
    apply matches_normalize
    rw [Decimal.Literal.decimal, hfraction, Option.getD_none, Decimal.ofParts, List.append_nil]
    exact alike_ofDecimal l.negative (Text.value l.whole)

end Number

/-- On matched numbers every operation has a result, and the results are matched. -/
theorem Operator.apply_matches (op : Operator) {x y : Number} {dx dy : Double}
    (hx : x.Matches dx) (hy : y.Matches dy) :
    ∃ z, op.apply x y = .ok z ∧ z.normalize.Matches (Doubles.apply op dx dy) := by
  cases op with
  | add => exact Number.lift_matches hx hy Double.add_ofInt Double.Alike.add
  | sub => exact Number.lift_matches hx hy Double.sub_ofInt Double.Alike.sub
  | mul => exact Number.lift_matches hx hy Double.mul_ofInt Double.Alike.mul
  | div => exact Number.divide_matches hx hy

end LineScript
