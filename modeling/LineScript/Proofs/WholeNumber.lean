import LineScript.Proofs.Doubles
import LineScript.Proofs.Literal
import LineScript.Proofs.Nearest

set_option autoImplicit false

/-!
# Whole numbers in expressions

A run of digits, with or without a minus sign, is a literal.  It is read in one of two
ways, and its length decides which: up to twenty characters as an integer, which becomes a
double if it is past the safe limit, and beyond that as a double at once.  The second way
leaves out the test of the limit, since a numeral of that length is past it, as long as the
numeral does not start with zeros.

Proved: a whole number has the value of its integer exactly if it is short or past the
limit, and if it is neither, the double of the same value (`Expression.eval_whole_iff`);
what stands for an integer past the limit is a double nearest to it.
-/

namespace LineScript

/-! ## Texts -/

/-- The text is a run of digits, after a minus sign or not, and denotes the integer. -/
inductive Text.IsWhole : Text → Int → Prop
  | unsigned {digits : Text} (h : digits.IsDigits) : IsWhole digits (Text.value digits)
  | negative {digits : Text} (h : digits.IsDigits) :
      IsWhole ('-' :: digits) (-(Text.value digits : Int))

namespace Decimal.Literal

/-- The literal of a whole number. -/
def ofWhole (negative : Bool) (digits : Text) : Literal := ⟨negative, digits, none⟩

/-- The integer that a literal denotes whose digits all stand before the point. -/
def wholeValue (l : Literal) : Int :=
  if l.negative then -(Text.value l.whole : Int) else Text.value l.whole

theorem ofWhole_wellFormed (negative : Bool) {digits : Text} (h : digits.IsDigits) :
    (ofWhole negative digits).WellFormed :=
  ⟨h, fun _ hfraction => absurd hfraction (by simp [ofWhole])⟩

/-- The characters of a whole number are digits and the minus sign. -/
theorem isBlank_of_mem_ofWhole {negative : Bool} {digits : Text} (h : digits.IsDigits) {c : Char}
    (hc : c ∈ (ofWhole negative digits).text) : Text.isBlank c = false := by
  have hdigit : c = '-' ∨ c.isDigit = true := by
    rw [text, unsignedText, ofWhole, fractionText, List.append_nil] at hc
    split at hc
    · exact (List.mem_cons.mp hc).imp_right (List.all_eq_true.mp h.all_digits c)
    · exact Or.inr (List.all_eq_true.mp h.all_digits c hc)
  rcases hdigit with rfl | hdigit
  · decide
  · have := Text.bounds_of_isDigit hdigit
    exact Text.isBlank_eq_false (by omega)

theorem strip_text_ofWhole (negative : Bool) {digits : Text} (h : digits.IsDigits) :
    Text.strip (ofWhole negative digits).text = (ofWhole negative digits).text :=
  Text.strip_eq_self (fun _ hc => isBlank_of_mem_ofWhole h (List.mem_of_mem_head? hc))
    fun _ hc => isBlank_of_mem_ofWhole h (List.mem_of_mem_getLast? hc)

end Decimal.Literal

open Decimal (Literal)

/-- A whole number is the text of a literal. -/
theorem Text.IsWhole.exists_literal {t : Text} {n : Int} (h : t.IsWhole n) :
    ∃ negative digits, digits.IsDigits ∧ t = (Literal.ofWhole negative digits).text ∧
      n = (Literal.ofWhole negative digits).wholeValue := by
  cases h with
  | unsigned hdigits =>
    refine ⟨false, t, hdigits, ?_, rfl⟩
    exact (List.append_nil t).symm
  | @negative digits hdigits =>
    refine ⟨true, digits, hdigits, ?_, rfl⟩
    exact congrArg ('-' :: ·) (List.append_nil digits).symm

/-! ## Reading -/

namespace Expression

/-- A text that starts with no quote is not quoted. -/
theorem unquote?_of_head {e : Text} (h : ∀ q ∈ quotes, e.head? ≠ some q) : unquote? e = none := by
  rw [unquote?, if_neg]
  intro hquoted
  obtain ⟨q, hq, hends⟩ := List.any_eq_true.mp hquoted
  rw [Bool.and_eq_true, decide_eq_true_eq] at hends
  exact h q hq hends.1

theorem shape_literal {l : Literal} (h : l.WellFormed) : shape l.text = .literal l.text := by
  have hhead : ∀ q ∈ quotes, l.text.head? ≠ some q := by
    intro q hq hhead
    have hquote : q.isDigit = false ∧ q ≠ '-' := by
      have hall : quotes.all (fun c => !c.isDigit && decide (c ≠ '-')) = true := by decide
      simpa using List.all_eq_true.mp hall q hq
    rw [Literal.text] at hhead
    split at hhead
    · exact hquote.2 (Option.some.inj hhead).symm
    · have hdigit := Literal.isDigit_of_head?_unsignedText h hhead
      exact absurd (hquote.1.symm.trans hdigit) Bool.false_ne_true
  have hread : Literal.ofText? l.text = some l := Literal.ofText?_eq_some_iff.mpr ⟨h, rfl⟩
  rw [shape, unquote?_of_head hhead]
  simp only [hread]

/-- A whole number has the value of its literal. -/
theorem eval_ofWhole (env : Environment) (budget : Nat) (negative : Bool) {digits : Text}
    (h : digits.IsDigits) :
    eval env (budget + 1) (Literal.ofWhole negative digits).text =
      .ok (.num (.ofLiteral (Literal.ofWhole negative digits).text.length
        (.ofWhole negative digits))) := by
  have wellFormed := Literal.ofWhole_wellFormed negative h
  have hread := Number.readLiteral_of_ofText? (Literal.ofText?_eq_some_iff.mpr ⟨wellFormed, rfl⟩)
  rw [eval, Literal.strip_text_ofWhole negative h, shape_literal wellFormed]
  simp only [hread]
  rfl

end Expression

/-! ## Values -/

namespace Number

/-- An integer up to the safe limit stays an integer. -/
theorem normalize_of_safe {n : Int} (h : n.natAbs ≤ safeLimit) :
    (int n).normalize = int n := by
  rw [normalize, if_neg (Nat.not_lt.mpr h)]

/-- An integer past the safe limit becomes its double. -/
theorem normalize_of_unsafe {n : Int} (h : safeLimit < n.natAbs) :
    (int n).normalize = double (.ofInt n) := by
  rw [normalize, if_pos h]

theorem decimal_ofWhole (negative : Bool) (digits : Text) :
    (Literal.ofWhole negative digits).decimal = ⟨negative, Text.value digits, 0⟩ := by
  rw [Literal.decimal, Decimal.ofParts, Literal.ofWhole, Option.getD_none, List.append_nil]
  rfl

/-- A short literal has the value of its integer. -/
theorem ofLiteral_short (negative : Bool) (digits : Text) {length : Nat} (h : length ≤ 20) :
    ofLiteral length (Literal.ofWhole negative digits) =
      (int (Literal.ofWhole negative digits).wholeValue).normalize := by
  rw [ofLiteral, if_neg]
  · rfl
  · simpa [Literal.ofWhole] using h

/-- A long literal is a double at once. -/
theorem ofLiteral_long (negative : Bool) (digits : Text) {length : Nat} (h : 20 < length) :
    ofLiteral length (Literal.ofWhole negative digits) =
      double (.ofDecimal ⟨negative, Text.value digits, 0⟩) := by
  rw [ofLiteral, if_pos (Or.inr h), decimal_ofWhole]

/-- Past the safe limit it is the double that its integer becomes. -/
theorem ofLiteral_long_of_unsafe {negative : Bool} {digits : Text} {length : Nat}
    (hlong : 20 < length)
    (h : safeLimit < (Literal.ofWhole negative digits).wholeValue.natAbs) :
    ofLiteral length (Literal.ofWhole negative digits) =
      (int (Literal.ofWhole negative digits).wholeValue).normalize := by
  have hne : Text.value digits ≠ 0 := by
    intro hzero
    rw [Literal.wholeValue, Literal.ofWhole, hzero, Int.natCast_zero, Int.neg_zero, ite_self] at h
    exact absurd h (Nat.not_lt_zero _)
  rw [ofLiteral_long negative digits hlong, normalize_of_unsafe h, ofDecimal_eq_ofInt _ hne]
  rfl

/-- Up to the safe limit it is a double of the same value. -/
theorem same_ofLiteral_long {negative : Bool} {digits : Text}
    (h : (Literal.ofWhole negative digits).wholeValue.natAbs ≤ safeLimit) :
    (double (.ofDecimal ⟨negative, Text.value digits, 0⟩)).same
      (int (Literal.ofWhole negative digits).wholeValue) = true := by
  have hmatches : (int (Literal.ofWhole negative digits).wholeValue).Matches
      (.ofDecimal ⟨negative, Text.value digits, 0⟩) :=
    ⟨h, alike_ofDecimal negative (Text.value digits)⟩
  rw [same, compare, ← hmatches.place?_eq]
  simp only [place?, decide_true]

end Number

/-- A whole number has the value of its integer exactly if it is short or past the safe
limit.  That value is the integer itself up to the limit, and past it a double nearest to
the integer, an infinite one having the sign of the integer.  A long number within the
limit, which starts with zeros, is a double of the same value instead. -/
theorem Expression.eval_whole_iff {t : Text} {n : Int} (h : t.IsWhole n) (env : Environment)
    (budget : Nat) :
    (eval env (budget + 1) t = .ok (.num (Number.int n).normalize) ↔
      t.length ≤ 20 ∨ Number.safeLimit < n.natAbs) ∧
    (n.natAbs ≤ Number.safeLimit → (Number.int n).normalize = .int n) ∧
    (Number.safeLimit < n.natAbs → ∃ x, (Number.int n).normalize = .double x ∧
      x.Nearest (n * Double.unitsPerOne) 1 ∧ ∀ negative, x = .infinite negative →
        negative = decide (n < 0)) ∧
    (20 < t.length → n.natAbs ≤ Number.safeLimit → ∃ x,
      eval env (budget + 1) t = .ok (.num (.double x)) ∧
      (Number.double x).same (.int n) = true) := by
  obtain ⟨negative, digits, hdigits, rfl, rfl⟩ := h.exists_literal
  rw [eval_ofWhole env budget negative hdigits]
  refine ⟨⟨?_, ?_⟩, Number.normalize_of_safe, ?_, ?_⟩
  · intro heval
    refine Decidable.byContradiction fun hneither => ?_
    rw [not_or, Nat.not_le, Nat.not_lt] at hneither
    rw [Number.ofLiteral_long negative digits hneither.1,
      Number.normalize_of_safe hneither.2] at heval
    exact absurd (Value.num.inj (Except.ok.inj heval)) (by simp)
  · rintro (hshort | hunsafe)
    · rw [Number.ofLiteral_short negative digits hshort]
    · rcases Nat.lt_or_ge 20 (Literal.ofWhole negative digits).text.length with hlong | hshort
      · rw [Number.ofLiteral_long_of_unsafe hlong hunsafe]
      · rw [Number.ofLiteral_short negative digits hshort]
  · intro hunsafe
    refine ⟨_, Number.normalize_of_unsafe hunsafe, Double.ofInt_nearest _, ?_⟩
    intro sign hinfinite
    rw [Double.ofInt, Double.ofRatio] at hinfinite
    split at hinfinite
    · exact absurd hinfinite (by simp)
    · exact (Double.infinite.inj hinfinite).symm
  · intro hlong hsafe
    exact ⟨_, by rw [Number.ofLiteral_long negative digits hlong],
      Number.same_ofLiteral_long hsafe⟩

/-- The digit one behind twenty zeros. -/
def paddedOne : Text := "000000000000000000001".toList

/-- The first integer past the safe limit on its negative side, in twenty characters. -/
def paddedPast : Text := "-0009007199254740992".toList

theorem Expression.padded_numbers_evaluated :
    paddedPast.IsWhole (-9007199254740992) ∧ paddedPast.length = 20 ∧
    (∃ x, eval .empty nestingLimit paddedPast = .ok (.num (.double x)) ∧
      x.Nearest (-9007199254740992 * Double.unitsPerOne) 1) ∧
    paddedOne.IsWhole 1 ∧ 20 < paddedOne.length ∧
    ∃ x, eval .empty nestingLimit paddedOne = .ok (.num (.double x)) ∧
      (Number.double x).same (.int 1) = true := by
  have hpast : paddedPast.IsWhole (-9007199254740992) :=
    .negative (show Text.IsDigits "0009007199254740992".toList by decide)
  have hone : paddedOne.IsWhole 1 := .unsigned (show paddedOne.IsDigits by decide)
  obtain ⟨⟨-, hvalue⟩, -, hdouble, -⟩ := eval_whole_iff hpast .empty 991
  obtain ⟨x, hx, hnearest, -⟩ := hdouble (by decide)
  obtain ⟨-, -, -, hlong⟩ := eval_whole_iff hone .empty 991
  refine ⟨hpast, rfl, ⟨x, ?_, hnearest⟩, hone, by decide, hlong (by decide) (by decide)⟩
  rw [← hx]
  exact hvalue (Or.inl (by decide))

/-- The number one is no integer if twenty zeros stand before it. -/
theorem Expression.paddedOne_is_double :
    paddedOne.IsWhole 1 ∧ (Number.int 1).normalize = .int 1 ∧
    eval .empty nestingLimit paddedOne = .ok (.num (.double (.ofInt 1))) ∧
    eval .empty nestingLimit paddedOne ≠ .ok (.num (Number.int 1).normalize) := by
  have hdigits : paddedOne.IsDigits := by decide
  have hlong : 20 < (Literal.ofWhole false paddedOne).text.length := by decide
  have hone : Double.ofDecimal ⟨false, Text.value paddedOne, 0⟩ = .ofInt 1 :=
    Number.ofDecimal_eq_ofInt false (show Text.value paddedOne ≠ 0 by decide)
  have heval : eval .empty nestingLimit paddedOne = .ok (.num (.double (.ofInt 1))) := by
    rw [← hone, ← Number.ofLiteral_long false paddedOne hlong]
    exact eval_ofWhole .empty 991 false hdigits
  have hint : (Number.int 1).normalize = .int 1 := rfl
  refine ⟨.unsigned hdigits, hint, heval, ?_⟩
  rw [heval, hint]
  exact fun h => absurd (Value.num.inj (Except.ok.inj h)) (by simp)

end LineScript
