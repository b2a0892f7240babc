import LineScript.Value

set_option autoImplicit false

/-!
# Data

What a caller hands over: a value, or one of the forms that no value has, nothing
at all, a list, an object with named fields.
-/

namespace LineScript

/-- A piece of data from outside. -/
inductive Datum where
  | scalar (v : Value)
  | null
  | list (items : List Datum)
  | object (fields : List (Text × Datum))
  deriving Inhabited

namespace Datum

/-- The number that the datum is. -/
def number? : Datum → Option Number
  | .scalar v => v.number?
  | _ => none

/-- The datum as an operand of arithmetic: what is no number counts as zero. -/
def asOperand (d : Datum) : Number := d.number?.getD (.int 0)

end Datum

end LineScript
