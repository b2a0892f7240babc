import LineScript.Numeral

set_option autoImplicit false

/-!
# Faults: why a run stops

The language absorbs what other languages reject: an unknown line, an unbound
name, a division by zero, a text that is no number.  Arithmetic and the readers of
numbers refuse what they cannot do, and the rules of the language keep it away from
them.  What is left are the bounds of the interpreter itself, and the numbers and
caps that only a caller can bring in.
-/

namespace LineScript

/-- Why a run stops before its end. -/
inductive Fault where
  /-- blocks or operators are nested past the limit -/
  | nestingTooDeep
  /-- a line was asked for that the program does not have -/
  | lineOutOfRange
  /-- an integer that no finite double is near to met a double -/
  | integerTooLarge
  /-- the quotient of two integers is near to no finite double -/
  | quotientTooLarge
  /-- an integer was divided by the integer zero -/
  | divisionByZero
  /-- a number was divided by zero, and one of the two is a double -/
  | doubleDivisionByZero
  /-- a text was read as a double that is none -/
  | notDouble (t : Text)
  /-- a text was read as an integer that is none -/
  | notInteger (e : IntegerError)
  /-- an integer has too many digits to be printed -/
  | numeralTooLong
  /-- the cap on loops is nothing that a count can be compared with -/
  | capUnusable
  deriving DecidableEq, Repr, Inhabited

/-- How deep operands and blocks may nest, all told, in a program that is run by itself.
A thousand calls may be open at once; eight of them stand around the operands: the
outermost, five that lead to an expression, and those that read its literals. -/
def nestingLimit : Nat := 992

/-- What a fault is reported as.  Behind the words for depth may stand where the limit was
met, which depends on the calls that are open around the run. -/
def Fault.message : Fault → Text
  | .nestingTooDeep => "maximum recursion depth exceeded".toList
  | .lineOutOfRange => "list index out of range".toList
  | .integerTooLarge => "int too large to convert to float".toList
  | .quotientTooLarge => "integer division result too large for a float".toList
  | .divisionByZero => "division by zero".toList
  | .doubleDivisionByZero => "float division by zero".toList
  | .notDouble t => "could not convert string to float: ".toList ++ Text.quoted t
  | .notInteger e => e.message
  | .numeralTooLong =>
    "Exceeds the limit (4300 digits) for integer string conversion; ".toList
      ++ "use sys.set_int_max_str_digits() to increase the limit".toList
  | .capUnusable => "'<' not supported between instances of 'int' and 'list'".toList

end LineScript
