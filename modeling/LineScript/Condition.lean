import LineScript.Expression

set_option autoImplicit false

/-!
# Conditions

A condition compares two expressions, or is one expression that is asked for its
truth.  The comparison is the first of `>= <= > < == !=` that occurs, at its first
occurrence; those of two characters come before the one that they start with.
-/

namespace LineScript

/-- The comparisons of a condition. -/
inductive Comparison where
  | atLeast
  | atMost
  | greater
  | less
  | equal
  | unequal
  deriving DecidableEq, Repr, Inhabited

namespace Comparison

/-- The comparisons, in the order in which a condition is searched for them. -/
def all : List Comparison := [.atLeast, .atMost, .greater, .less, .equal, .unequal]

/-- How a comparison is written. -/
def symbol : Comparison → Text
  | .atLeast => ">=".toList
  | .atMost => "<=".toList
  | .greater => ">".toList
  | .less => "<".toList
  | .equal => "==".toList
  | .unequal => "!=".toList

/-- The comparison holds between two values. -/
def holds : Comparison → Value → Value → Bool
  | .atLeast, v, w => w.asNumber.atMost v.asNumber
  | .atMost, v, w => v.asNumber.atMost w.asNumber
  | .greater, v, w => w.asNumber.less v.asNumber
  | .less, v, w => v.asNumber.less w.asNumber
  | .equal, v, w => v.agrees w
  | .unequal, v, w => !v.agrees w

end Comparison

namespace Condition

/-- The comparison of a condition, and its sides. -/
def split? (c : Text) : Option (Comparison × Text × Text) :=
  Comparison.all.findSome? fun op => (Text.cut? op.symbol c).map fun p => (op, p.1, p.2)

/-- Whether a condition holds. -/
def eval (env : Environment) (budget : Nat) (t : Text) : Except Fault Bool :=
  match split? (Text.strip t) with
  | some (op, left, right) => do
    let v ← Expression.eval env budget left
    let w ← Expression.eval env budget right
    return op.holds v w
  | none => do
    let v ← Expression.eval env budget (Text.strip t)
    return v.countsAsTrue

end Condition

end LineScript
