import LineScript.Fault
import LineScript.Double.Arithmetic
import LineScript.Double.Decimal

set_option autoImplicit false

/-!
# Numbers

A number is an integer or a double.  Arithmetic on integers is exact; a result
whose magnitude is past `2 ^ 53 - 1` moves over to the double nearest to it
(`Number.normalize`).  Where an integer meets a double it is rounded to one first.

Numbers of both kinds are compared by their place on one line (`Number.place?`),
so a comparison never rounds.

The readers refuse a text that is no numeral, and a zero divisor has no quotient;
`readLiteral` is for texts that are literals, and `divide` asks before it divides.
-/

namespace LineScript

/-- An integer of any size, or a double. -/
inductive Number where
  | int (n : Int)
  | double (x : Double)
  deriving DecidableEq, Inhabited

namespace Number

/-! ## Kinds -/

/-- The largest magnitude, `2 ^ 53 - 1`, up to which integers stay integers. -/
def safeLimit : Nat := 9007199254740991

/-- An integer past the safe limit becomes a double. -/
def normalize : Number → Number
  | .int n => if safeLimit < n.natAbs then .double (.ofInt n) else .int n
  | .double x => .double x

/-- The double that stands for the number in mixed arithmetic. -/
def toDouble : Number → Except Fault Double
  | .int n => if (Double.ofInt n).isInfinite then .error .integerTooLarge else .ok (.ofInt n)
  | .double x => .ok x

/-! ## Reading -/

/-- Read a double from a text. -/
def readDouble (t : Text) : Except Fault Number :=
  match Double.ofText? t with
  | some x => .ok (.double x)
  | none => .error (.notDouble t)

/-- Read an integer from a text. -/
def readInteger (t : Text) : Except Fault Number :=
  match Integer.ofText t with
  | .ok n => .ok (.int n)
  | .error e => .error (.notInteger e)

/-- Read the number that the text of a literal denotes.  It is an integer, unless the
text has a point or is longer than any integer below the safe limit has to be. -/
def readLiteral (t : Text) : Except Fault Number :=
  if '.' ∈ t ∨ 20 < t.length then readDouble t
  else (readInteger t).map normalize

/-! ## Order -/

/-- The integers with an end on either side. -/
inductive Place where
  | bottom
  | units (n : Int)
  | top
  deriving DecidableEq, Repr, Inhabited

/-- The first place is before the second. -/
def Place.before : Place → Place → Bool
  | .bottom, .bottom => false
  | .bottom, _ => true
  | .units _, .bottom => false
  | .units m, .units n => m < n
  | .units _, .top => true
  | .top, _ => false

/-- The place of a number among all numbers, in units of the smallest double.
The double that is no number has none. -/
def place? : Number → Option Place
  | .int n => some (.units (n * Double.unitsPerOne))
  | .double .nan => none
  | .double (.infinite negative) => some (if negative then .bottom else .top)
  | .double (.finite negative size) => some (.units (Double.signed negative size))

/-- Compare two numbers by their places; false if one of them has none. -/
def compare (holds : Place → Place → Bool) (x y : Number) : Bool :=
  match x.place?, y.place? with
  | some p, some q => holds p q
  | _, _ => false

/-- The numbers have the same place. -/
def same : Number → Number → Bool := compare fun p q => p = q

/-- The first number is below the second. -/
def less : Number → Number → Bool := compare Place.before

/-- The first number is below the second or has the same place. -/
def atMost : Number → Number → Bool := compare fun p q => !q.before p

/-- The number is zero, of either kind and sign. -/
def isZero (x : Number) : Bool := x.same (.int 0)

/-- The number is the double that is no number. -/
def isNaN (x : Number) : Bool := x = .double .nan

/-! ## Arithmetic -/

/-- Apply an exact operation to two integers, and a rounding one otherwise. -/
def lift (exact : Int → Int → Int) (rounded : Double → Double → Double) :
    Number → Number → Except Fault Number
  | .int m, .int n => .ok (.int (exact m n))
  | x, y => do return .double (rounded (← x.toDouble) (← y.toDouble))

/-- The double nearest to the quotient of two integers, the second not zero. -/
def ratio (m n : Int) : Double :=
  .ofRatio ((m < 0) != (n < 0)) (m.natAbs * Double.unitsPerOne) n.natAbs

/-- The quotient, which a zero divisor does not have. -/
def quotient : Number → Number → Except Fault Number
  | .int m, .int n =>
    if n = 0 then .error .divisionByZero
    else if (ratio m n).isInfinite then .error .quotientTooLarge
    else .ok (.double (ratio m n))
  | x, y => do
    let a ← x.toDouble
    let b ← y.toDouble
    if b.isZero then .error .doubleDivisionByZero
    else return .double (a.div b)

/-- The quotient, or the integer zero for a zero divisor. -/
def divide (x y : Number) : Except Fault Number :=
  if y.isZero then .ok (.int 0) else x.quotient y

/-! ## Text -/

/-- The first whole number, `10 ^ 21`, that is not printed digit by digit. -/
def plainLimit : Nat := 1000000000000000000000

/-- The text of a double: a whole number below the plain limit like an integer,
any other with the fewest digits that read back. -/
def writtenDouble : Double → Text
  | .nan => "NaN".toList
  | .infinite negative => Double.sign negative ++ "Infinity".toList
  | .finite negative size =>
    if size.isWhole && size.units < plainLimit * Double.unitsPerOne then
      Text.ofInt (Double.truncate negative size)
    else Double.sign negative ++ size.written

/-- The text of a number. -/
def written : Number → Except Fault Text
  | .int n =>
    if Nat.pow 10 numeralLimit ≤ n.natAbs then .error .numeralTooLong else .ok (Text.ofInt n)
  | .double x => .ok (writtenDouble x)

end Number

end LineScript
