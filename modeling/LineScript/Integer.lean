import LineScript.Datum

set_option autoImplicit false

/-!
# Reading integers

A setting is an integer, or something an integer can be read from: a text with a
numeral, a double, whose fraction is dropped, a truth value.
-/

namespace LineScript.Integer

/-- Read an integer from a number. -/
def ofNumber : Number → Except IntegerError Int
  | .int n => .ok n
  | .double .nan => .error .notNumber
  | .double (.infinite _) => .error .infinite
  | .double (.finite negative size) => .ok (Double.truncate negative size)

/-- Read an integer from any datum. -/
def ofDatum : Datum → Except IntegerError Int
  | .scalar (.num n) => ofNumber n
  | .scalar (.text t) => ofText t
  | .scalar (.bool b) => .ok (if b then 1 else 0)
  | .null => .error (.wrongKind "NoneType".toList)
  | .list _ => .error (.wrongKind "list".toList)
  | .object _ => .error (.wrongKind "dict".toList)

end LineScript.Integer
