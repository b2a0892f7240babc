import LineScript.Decimal
import LineScript.Double.Basic

set_option autoImplicit false

/-!
# Doubles: reading and writing decimals

A decimal is read as the double nearest to it.  A double is written with the
fewest digits that read back as the same double, and among those with the digits
nearest to it.
-/

namespace LineScript.Double

/-! ## Reading -/

/-- The double nearest to a decimal.  A power of ten that is out of reach, below
half a unit or above every double, is settled without being computed. -/
def ofDecimal (d : Decimal) : Double :=
  if d.digits = 0 then zero d.negative
  else if 310 ≤ d.exponent then .infinite d.negative
  else if d.digits.log2 + 1 + 3 * d.exponent ≤ -1100 then zero d.negative
  else match d.exponent with
    | .ofNat e => ofRatio d.negative (d.digits * Nat.pow 10 e * unitsPerOne) 1
    | .negSucc e => ofRatio d.negative (d.digits * unitsPerOne) (Nat.pow 10 (e + 1))

/-! ## The fewest digits -/

/-- The power of ten of the leading digit of the magnitude, which is not zero. -/
def Magnitude.leadingPower (x : Magnitude) : Int :=
  if unitsPerOne ≤ x.units then
    ((Text.ofNat (x.units / unitsPerOne)).length : Int) - 1
  else - ((Text.ofNat ((unitsPerOne - 1) / x.units)).length : Int)

/-- The magnitude as a multiple of `10 ^ power`: a numerator and a denominator. -/
def Magnitude.scaled (x : Magnitude) : Int → Nat × Nat
  | .ofNat e => (x.units, unitsPerOne * Nat.pow 10 e)
  | .negSucc e => (x.units * Nat.pow 10 (e + 1), unitsPerOne)

/-- `digits · 10 ^ power` reads as the magnitude. -/
def Magnitude.reads (x : Magnitude) (power : Int) (digits : Nat) : Bool :=
  ofDecimal ⟨false, digits, power⟩ = .finite false x

/-- The multiple of `10 ^ power` nearest to the magnitude among those that read
as it.  Only the two neighbours of the magnitude have to be tried. -/
def Magnitude.nearest? (x : Magnitude) (power : Int) : Option Nat :=
  let (a, b) := x.scaled power
  match x.reads power (a / b), x.reads power (a / b + 1) with
  | true, true => some (roundHalfEven a b)
  | true, false => some (a / b)
  | false, true => some (a / b + 1)
  | false, false => none

/-- The decimal with the fewest digits that reads as the magnitude.  Seventeen
digits are always enough. -/
def Magnitude.shortest (x : Magnitude) : Decimal :=
  let top := x.leadingPower
  let found := (List.range 17).findSome? fun (n : Nat) =>
    (x.nearest? (top - n)).map fun digits => (⟨false, digits, top - n⟩ : Decimal)
  found.getD ⟨false, 0, 0⟩

/-! ## Layout -/

/-- How a decimal is laid out: which powers of the leading digit are written
positionally, and how many digits an exponent has at least. -/
structure Layout where
  leastPositional : Int
  positionalLimit : Int
  exponentWidth : Nat
  deriving DecidableEq, Repr, Inhabited

/-- Numbers are written positionally from `0.0001` up to sixteen digits before
the point, and exponents have two digits. -/
def layout : Layout := ⟨-4, 16, 2⟩

/-- The numeral without its trailing zeros. -/
def significantDigits (digits : Nat) : Text :=
  ((Text.ofNat digits).reverse.dropWhile (· = '0')).reverse

/-- Digits with a point after the digit of power zero, and at least one digit on
either side of it. -/
def positional (digits : Text) (top : Int) : Text :=
  if top < 0 then
    ['0', '.'] ++ List.replicate (-top - 1).toNat '0' ++ digits
  else
    let whole := digits.take (top + 1).toNat
    let padding := List.replicate ((top + 1).toNat - digits.length) '0'
    let fraction := digits.drop (top + 1).toNat
    whole ++ padding ++ ['.'] ++ (if fraction = [] then ['0'] else fraction)

/-- Digits with a point after the first, and the power of that digit, with its
sign and at least `width` digits. -/
def exponential (width : Nat) (digits : Text) (top : Int) : Text :=
  let mantissa := match digits with
    | d :: e :: rest => d :: '.' :: e :: rest
    | short => short
  let power := Text.ofNat top.natAbs
  mantissa ++ ['e', if top < 0 then '-' else '+']
    ++ List.replicate (width - power.length) '0' ++ power

/-- A decimal, without its sign, in a layout. -/
def Layout.write (l : Layout) (d : Decimal) : Text :=
  let digits := significantDigits d.digits
  let top := d.exponent + (Text.ofNat d.digits).length - 1
  if l.leastPositional ≤ top ∧ top < l.positionalLimit then positional digits top
  else exponential l.exponentWidth digits top

/-- The shortest text of a magnitude. -/
def Magnitude.written (x : Magnitude) : Text :=
  if x.units = 0 then ['0', '.', '0'] else layout.write x.shortest

/-- A minus sign, where there is one. -/
def sign (negative : Bool) : Text := if negative then ['-'] else []

end LineScript.Double
