import LineScript.Text.Basic

set_option autoImplicit false

/-!
# Text: decimal numerals

Whole numbers as decimal numerals, most significant digit first, with a minus
sign in front of a negative number and no leading zero.

Proved: a numeral reads back as its number (`value_ofNat`) and holds digits only
(`isDigit_of_mem_ofNat`).
-/

namespace LineScript.Text

/-- The decimal numeral of a natural number. -/
def ofNat (n : Nat) : Text := Nat.toDigits 10 n

/-- The decimal numeral of an integer. -/
def ofInt : Int → Text
  | .ofNat n => ofNat n
  | .negSucc n => '-' :: ofNat (n + 1)

/-- The number that a run of decimal digits denotes; the empty run denotes zero. -/
def value (digits : Text) : Nat := Nat.ofDigitChars 10 digits 0

theorem value_ofNat (n : Nat) : value (ofNat n) = n :=
  Nat.ofDigitChars_toDigits (by decide) (by decide)

theorem ofNat_ne_nil (n : Nat) : ofNat n ≠ [] := Nat.toDigits_ne_nil

theorem isDigit_of_mem_ofNat {n : Nat} {c : Char} (h : c ∈ ofNat n) :
    c.isDigit = true :=
  Nat.isDigit_of_mem_toDigits (by decide) (by decide) h

/-- The leading run of decimal digits and what follows it. -/
def spanDigits (t : Text) : Text × Text :=
  (t.takeWhile Char.isDigit, t.dropWhile Char.isDigit)

theorem spanDigits_append (t : Text) : (spanDigits t).1 ++ (spanDigits t).2 = t :=
  List.takeWhile_append_dropWhile

theorem all_isDigit_spanDigits (t : Text) : (spanDigits t).1.all Char.isDigit = true :=
  List.all_takeWhile

end LineScript.Text
