import LineScript.Text.Numeral

set_option autoImplicit false

/-!
# Decimals

A decimal is a sign, a run of digits and a power of ten.  Two grammars are read
here, both over ASCII digits only:

    numeric text   [+-]? ( D+ ( . D* )? | . D+ ) ( [eE] [+-]? D+ )?
    literal        -? D+ ( . D+ )?

A numeric text is what a comparison accepts as a number; a literal is what an
expression writes as one.  Whether a text is numeric can be asked apart from what
it denotes.

Proved: the numeric texts are those that denote a decimal (`isSome_ofNumericText?`),
and they hold digits, signs, points and marks of an exponent only
(`isNumericChar_of_isNumericText`).
-/

namespace LineScript

/-- The character can stand in a numeric text. -/
def Text.isNumericChar (c : Char) : Bool := c.isDigit || "+-.eE".toList.contains c

/-- The number `± digits · 10 ^ exponent`.  A negative zero keeps its sign. -/
structure Decimal where
  negative : Bool
  digits : Nat
  exponent : Int
  deriving DecidableEq, Repr, Inhabited

namespace Decimal

/-- The decimal of a whole part and a fraction, each a run of digits, times a
power of ten. -/
def ofParts (negative : Bool) (whole fraction : Text) (exponent : Int) : Decimal :=
  ⟨negative, Text.value (whole ++ fraction), exponent - fraction.length⟩

/-! ## Numeric text -/

/-- An optional sign, and whether it is a minus. -/
def takeSign : Text → Bool × Text
  | '-' :: rest => (true, rest)
  | '+' :: rest => (false, rest)
  | rest => (false, rest)

/-- An optional fraction: a point and any number of digits. -/
def takeFraction : Text → Text × Text
  | '.' :: rest => Text.spanDigits rest
  | rest => ([], rest)

/-- An optional exponent, which has to fill the rest of the text. -/
def exponent? : Text → Option Int
  | [] => some 0
  | c :: rest =>
    let (negative, digits) := takeSign rest
    if (c = 'e' ∨ c = 'E') ∧ digits ≠ [] ∧ digits.all Char.isDigit then
      some (if negative then - (Text.value digits : Int) else Text.value digits)
    else none

/-- Read a numeric text. -/
def ofNumericText? (t : Text) : Option Decimal :=
  let (negative, body) := takeSign t
  let (whole, afterWhole) := Text.spanDigits body
  let (fraction, afterFraction) := takeFraction afterWhole
  if whole = [] ∧ fraction = [] then none
  else (exponent? afterFraction).map (ofParts negative whole fraction)

/-- The text is empty or an exponent. -/
def isExponent : Text → Bool
  | [] => true
  | c :: rest =>
    (c = 'e' || c = 'E') && (takeSign rest).2 ≠ [] && (takeSign rest).2.all Char.isDigit

/-- The text is a numeric text. -/
def isNumericText (t : Text) : Bool :=
  match Text.spanDigits (takeSign t).2 with
  | ([], '.' :: rest) =>
    (Text.spanDigits rest).1 ≠ [] && isExponent (Text.spanDigits rest).2
  | ([], _) => false
  | (_ :: _, '.' :: rest) => isExponent (Text.spanDigits rest).2
  | (_ :: _, rest) => isExponent rest

theorem isSome_exponent? (t : Text) : (exponent? t).isSome = isExponent t := by
  cases t with
  | nil => rfl
  | cons c rest =>
    rw [exponent?, isExponent]
    generalize takeSign rest = signed
    obtain ⟨negative, digits⟩ := signed
    simp only
    split
    · rename_i h
      simp [h]
    · rename_i h
      simpa [and_assoc] using h

theorem takeFraction_of_head {t : Text} (h : t.head? ≠ some '.') : takeFraction t = ([], t) := by
  unfold takeFraction
  split
  · exact absurd rfl h
  · rfl

/-- The numeric texts are those that denote a decimal. -/
theorem isSome_ofNumericText? (t : Text) : (ofNumericText? t).isSome = isNumericText t := by
  simp only [ofNumericText?, isNumericText]
  obtain ⟨whole, afterWhole⟩ := Text.spanDigits (takeSign t).2
  by_cases hpoint : afterWhole.head? = some '.'
  · obtain ⟨rest, rfl⟩ := List.head?_eq_some_iff.mp hpoint
    cases whole with
    | nil =>
      by_cases hnone : (Text.spanDigits rest).1 = []
      · simp [takeFraction, hnone]
      · simp [takeFraction, hnone, isSome_exponent?]
    | cons d ds => simp [takeFraction, isSome_exponent?]
  · -- what follows the digits has no point in front, so the exponent is next
    have hfraction := takeFraction_of_head hpoint
    cases whole with
    | nil =>
      rw [hfraction, if_pos ⟨rfl, rfl⟩]
      split <;> simp_all
    | cons d ds =>
      rw [hfraction, if_neg (by simp), Option.isSome_map, isSome_exponent?]
      split <;> simp_all

/-! ## Characters of a numeric text -/

theorem isNumericChar_of_takeSign {t : Text}
    (h : ∀ c ∈ (takeSign t).2, Text.isNumericChar c = true) :
    ∀ c ∈ t, Text.isNumericChar c = true := by
  unfold takeSign at h
  split at h
  · exact List.forall_mem_cons.mpr ⟨by decide, h⟩
  · exact List.forall_mem_cons.mpr ⟨by decide, h⟩
  · exact h

theorem isNumericChar_of_spanDigits {t : Text}
    (h : ∀ c ∈ (Text.spanDigits t).2, Text.isNumericChar c = true) :
    ∀ c ∈ t, Text.isNumericChar c = true := by
  intro c hc
  rw [← Text.spanDigits_append t] at hc
  rcases List.mem_append.mp hc with hc | hc
  · rw [Text.isNumericChar, List.all_eq_true.mp (Text.all_isDigit_spanDigits t) c hc, Bool.true_or]
  · exact h c hc

theorem isNumericChar_of_isExponent {t : Text} (h : isExponent t = true) :
    ∀ c ∈ t, Text.isNumericChar c = true := by
  cases t with
  | nil => exact fun c hc => absurd hc (by simp)
  | cons mark rest =>
    simp only [isExponent, Bool.and_eq_true, Bool.or_eq_true, decide_eq_true_eq] at h
    refine List.forall_mem_cons.mpr ⟨?_, isNumericChar_of_takeSign fun c hc => ?_⟩
    · rcases h.1.1 with rfl | rfl
      · decide
      · decide
    · rw [Text.isNumericChar, List.all_eq_true.mp h.2 c hc, Bool.true_or]

/-- A numeric text holds such characters only. -/
theorem isNumericChar_of_isNumericText {t : Text} (h : isNumericText t = true) :
    ∀ c ∈ t, Text.isNumericChar c = true := by
  have hpoint : Text.isNumericChar '.' = true := by decide
  refine isNumericChar_of_takeSign (isNumericChar_of_spanDigits ?_)
  unfold isNumericText at h
  split at h
  · rename_i rest hparts
    rw [Bool.and_eq_true] at h
    rw [hparts]
    exact List.forall_mem_cons.mpr
      ⟨hpoint, isNumericChar_of_spanDigits (isNumericChar_of_isExponent h.2)⟩
  · exact absurd h (by simp)
  · rename_i rest hparts
    rw [hparts]
    exact List.forall_mem_cons.mpr
      ⟨hpoint, isNumericChar_of_spanDigits (isNumericChar_of_isExponent h)⟩
  · rename_i rest _ hparts
    rw [hparts]
    exact isNumericChar_of_isExponent h

/-! ## Literals -/

/-- The text of a literal, taken apart. -/
structure Literal where
  negative : Bool
  whole : Text
  /-- the digits after the point, if there is a point -/
  fraction : Option Text
  deriving DecidableEq, Repr, Inhabited

/-- Read a literal. -/
def Literal.ofText? (t : Text) : Option Literal :=
  let (negative, body) := match t with
    | '-' :: rest => (true, rest)
    | rest => (false, rest)
  let (whole, afterWhole) := Text.spanDigits body
  if whole = [] then none
  else match afterWhole with
    | [] => some ⟨negative, whole, none⟩
    | '.' :: fraction =>
      if fraction ≠ [] ∧ fraction.all Char.isDigit then some ⟨negative, whole, some fraction⟩
      else none
    | _ => none

/-- The decimal that a literal denotes. -/
def Literal.decimal (l : Literal) : Decimal :=
  ofParts l.negative l.whole (l.fraction.getD []) 0

end Decimal

end LineScript
