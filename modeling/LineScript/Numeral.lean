import LineScript.Double.Decimal
import LineScript.Text.Blank
import LineScript.Text.DecimalDigit
import LineScript.Text.Quoted

set_option autoImplicit false

/-!
# Numerals

An integer and a double can each be read from a text.  Either reader takes digits of
any script, spacing around the numeral, a sign, and single underscores between
digits; the reader of doubles takes a point, an exponent and the names of the doubles
that are not finite, too.  Everything else is refused.

Proved: a numeric text is never refused as a double, and is the one nearest to its
decimal (`Double.ofText?_eq_of_isNumericText`).
-/

namespace LineScript

/-- The most digits that a numeral may have. -/
def numeralLimit : Nat := 4300

/-- Why no integer can be read. -/
inductive IntegerError where
  /-- the text is no numeral -/
  | notNumeral (t : Text)
  /-- the numeral has too many digits -/
  | tooLong (digits : Nat)
  /-- the double is infinite -/
  | infinite
  /-- the double is no number -/
  | notNumber
  /-- data of this kind are never read as an integer -/
  | wrongKind (kind : Text)
  deriving DecidableEq, Repr, Inhabited

namespace IntegerError

/-- The most characters of a text that a message quotes. -/
def quotedLimit : Nat := 200

/-- What an error is reported as. -/
def message : IntegerError → Text
  | .notNumeral t =>
    "invalid literal for int() with base 10: ".toList ++ (Text.quoted t).take quotedLimit
  | .tooLong digits =>
    "Exceeds the limit (4300 digits) for integer string conversion: value has ".toList
      ++ Text.ofNat digits
      ++ " digits; use sys.set_int_max_str_digits() to increase the limit".toList
  | .infinite => "cannot convert float infinity to integer".toList
  | .notNumber => "cannot convert float NaN to integer".toList
  | .wrongKind kind =>
    "int() argument must be a string, a bytes-like object or a real number, not ".toList
      ++ Text.quoted kind

end IntegerError

/-! ## Integers -/

namespace Integer

/-- The character may stand around a numeral: a blank that is no separator of the
ASCII control block. -/
def isSpacing (c : Char) : Bool :=
  Text.isBlank c && !(0x1C ≤ c.toNat && c.toNat ≤ 0x1F)

/-- The character may stand inside a numeral. -/
def isInside (c : Char) : Bool := c = '_' || (Text.digitValue? c).isSome

/-- The number that a run of digits of any script denotes. -/
def digitsValue (digits : Text) : Nat :=
  digits.foldl (fun n c => 10 * n + (Text.digitValue? c).getD 0) 0

/-- Read a numeral.  Its length is judged before what follows it. -/
def ofText (t : Text) : Except IntegerError Int :=
  let (negative, unsigned) := Decimal.takeSign (t.dropWhile isSpacing)
  let groups := (unsigned.takeWhile isInside).splitOn '_'
  let digits := groups.flatten
  if [] ∈ groups then .error (.notNumeral t)
  else if numeralLimit < digits.length then .error (.tooLong digits.length)
  else if (unsigned.dropWhile isInside).all isSpacing then
    .ok (if negative then - (digitsValue digits : Int) else digitsValue digits)
  else .error (.notNumeral t)

end Integer

/-! ## Doubles -/

namespace Double

/-- The text without the spacing around it. -/
def trim (t : Text) : Text :=
  ((t.dropWhile Integer.isSpacing).reverse.dropWhile Integer.isSpacing).reverse

/-- The text without its underscores, if each of them stands between two digits.  The
first argument says whether a digit stands before the text. -/
def withoutUnderscores? : Bool → Text → Option Text
  | _, [] => some []
  | afterDigit, c :: rest =>
    if c = '_' then
      if afterDigit && rest.head?.any Char.isDigit then withoutUnderscores? false rest else none
    else (withoutUnderscores? c.isDigit rest).map (c :: ·)

/-- The double that a name denotes, in letters of either case, after a sign or none. -/
def ofName? (t : Text) : Option Double :=
  let (negative, name) := Decimal.takeSign t
  let lower := name.map Char.toLower
  if lower = "inf".toList ∨ lower = "infinity".toList then some (.infinite negative)
  else if lower = "nan".toList then some .nan
  else none

/-- Read a double. -/
def ofText? (t : Text) : Option Double := do
  let plain ← withoutUnderscores? false ((trim t).map Text.asciiDigit)
  match Decimal.ofNumericText? plain with
  | some d => some (ofDecimal d)
  | none => ofName? plain

/-! ### Numeric texts -/

theorem isSpacing_of_isNumericChar {c : Char} (h : Text.isNumericChar c = true) :
    Integer.isSpacing c = false := by
  have hc : 33 ≤ c.toNat ∧ c.toNat ≤ 132 := by
    rw [Text.isNumericChar, Bool.or_eq_true] at h
    rcases h with hdigit | hsign
    · have := Text.bounds_of_isDigit hdigit
      omega
    · have hall : "+-.eE".toList.all (fun d => 33 ≤ d.toNat ∧ d.toNat ≤ 132) = true := by decide
      simpa using List.all_eq_true.mp hall c (List.contains_iff_mem.mp hsign)
  rw [Integer.isSpacing, Text.isBlank_eq_false hc, Bool.false_and]

theorem asciiDigit_of_isNumericChar {c : Char} (h : Text.isNumericChar c = true) :
    Text.asciiDigit c = c := by
  rw [Text.isNumericChar, Bool.or_eq_true] at h
  rcases h with hdigit | hsign
  · exact Text.asciiDigit_of_isDigit hdigit
  · have hall : "+-.eE".toList.all (fun d => Text.asciiDigit d = d) = true := by decide
    simpa using List.all_eq_true.mp hall c (List.contains_iff_mem.mp hsign)

theorem trim_eq_self {t : Text} (h : ∀ c ∈ t, Integer.isSpacing c = false) : trim t = t := by
  have hdrop : ∀ u : Text, (∀ c ∈ u, Integer.isSpacing c = false) →
      u.dropWhile Integer.isSpacing = u := by
    intro u hu
    cases u with
    | nil => rfl
    | cons c cs => exact List.dropWhile_cons_of_neg (by simp [hu c List.mem_cons_self])
  rw [trim, hdrop t h, hdrop _ fun c hc => h c (List.mem_reverse.mp hc), List.reverse_reverse]

theorem withoutUnderscores?_eq_some {t : Text} (h : '_' ∉ t) (afterDigit : Bool) :
    withoutUnderscores? afterDigit t = some t := by
  induction t generalizing afterDigit with
  | nil => rfl
  | cons c rest ih =>
    rw [List.mem_cons, not_or] at h
    rw [withoutUnderscores?, if_neg fun hc => h.1 hc.symm, ih h.2]
    rfl

/-- A numeric text is read as the double nearest to its decimal. -/
theorem ofText?_eq_of_isNumericText {t : Text} (h : Decimal.isNumericText t = true) :
    ofText? t = (Decimal.ofNumericText? t).map ofDecimal := by
  have hchars := Decimal.isNumericChar_of_isNumericText h
  have hunderscore : '_' ∉ t := fun hmem => absurd (hchars '_' hmem) (by decide)
  have htrim : trim t = t := trim_eq_self fun c hc => isSpacing_of_isNumericChar (hchars c hc)
  have hdigits : t.map Text.asciiDigit = t := by
    rw [List.map_congr_left fun c hc => asciiDigit_of_isNumericChar (hchars c hc), List.map_id']
  obtain ⟨d, hd⟩ := Option.isSome_iff_exists.mp ((Decimal.isSome_ofNumericText? t).trans h)
  rw [ofText?, htrim, hdigits, withoutUnderscores?_eq_some hunderscore]
  simp [hd]

end Double

end LineScript
