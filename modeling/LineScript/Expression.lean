import LineScript.Environment

set_option autoImplicit false

/-!
# Expressions

An expression has one of five shapes, tried in this order: a quoted text, a
literal, a name, two operands around an operator, and any other text, which
denotes itself.  The operator is the first of `+ - * /` that occurs, at its first
occurrence, so `+` binds loosest, then `-`, `*` and `/`, and each groups to the
right.  A minus sign in front is no operator.

Evaluation is structural in a budget, of which each operand uses up one.

Proved: an expression that is split is its operands with the operator between them
(`split?_eq_some`).
-/

namespace LineScript

/-! ## Operators -/

/-- The operators of arithmetic. -/
inductive Operator where
  | add
  | sub
  | mul
  | div
  deriving DecidableEq, Repr, Inhabited

namespace Operator

/-- The operators, loosest first. -/
def all : List Operator := [.add, .sub, .mul, .div]

/-- How an operator is written. -/
def symbol : Operator → Char
  | .add => '+'
  | .sub => '-'
  | .mul => '*'
  | .div => '/'

/-- The result of an operation, not yet normalized. -/
def apply : Operator → Number → Number → Except Fault Number
  | .add => Number.lift (· + ·) Double.add
  | .sub => Number.lift (· - ·) Double.sub
  | .mul => Number.lift (· * ·) Double.mul
  | .div => Number.divide

/-- The operands around the first occurrence of an operator.  A minus sign in
front of the expression is none. -/
def split? (op : Operator) (e : Text) : Option (Text × Text) :=
  if op = .sub ∧ e.head? = some '-' then none else Text.cut? [op.symbol] e

theorem split?_eq_some {op : Operator} {e l r : Text} (h : op.split? e = some (l, r)) :
    e = l ++ [op.symbol] ++ r := by
  unfold split? at h
  split at h
  · exact absurd h (by simp)
  · exact Text.cut?_eq_some h

end Operator

namespace Expression

/-! ## Shapes -/

/-- What an expression looks like. -/
inductive Shape where
  | quoted (body : Text)
  | literal (t : Text)
  | name (x : Text)
  | binary (op : Operator) (left right : Text)
  | plain (t : Text)
  deriving DecidableEq, Inhabited

/-- The two quotes. -/
def quotes : List Char := [Char.ofNat 39, Char.ofNat 34]

/-- The text between two quotes of one kind.  One quote is both of them. -/
def unquote? (e : Text) : Option Text :=
  if quotes.any fun q => e.head? = some q && e.getLast? = some q then
    some (e.drop 1).dropLast
  else none

/-- The text is a name: ASCII letters, digits and underscores, no digit first. -/
def isName : Text → Bool
  | [] => false
  | c :: cs => (c.isAlpha || c = '_') && cs.all fun d => d.isAlphanum || d = '_'

/-- The loosest operator of an expression, and its operands. -/
def split? (e : Text) : Option (Operator × Text × Text) :=
  Operator.all.findSome? fun op => (op.split? e).map fun p => (op, p.1, p.2)

/-- The shape of an expression without blanks at its ends. -/
def shape (e : Text) : Shape :=
  match unquote? e with
  | some body => .quoted body
  | none =>
    match Decimal.Literal.ofText? e with
    | some _ => .literal e
    | none =>
      if isName e then .name e
      else match split? e with
        | some (op, left, right) => .binary op left right
        | none => .plain e

theorem split?_eq_some {e l r : Text} {op : Operator} (h : split? e = some (op, l, r)) :
    e = l ++ [op.symbol] ++ r := by
  obtain ⟨o, _, ho⟩ := List.exists_of_findSome?_eq_some h
  cases hs : o.split? e with
  | none => simp [hs] at ho
  | some p =>
    simp only [hs, Option.map_some, Option.some.injEq, Prod.mk.injEq] at ho
    obtain ⟨rfl, rfl, rfl⟩ := ho
    exact Operator.split?_eq_some hs

/-! ## Evaluation -/

/-- The value of an expression, with a budget for the depth of its operands. -/
def eval (env : Environment) : Nat → Text → Except Fault Value
  | 0, _ => .error .nestingTooDeep
  | budget + 1, t =>
    match shape (Text.strip t) with
    | .quoted body => .ok (.text body)
    | .literal e => do return .num (← Number.readLiteral e)
    | .name x => .ok (env.read x)
    | .plain e => .ok (.text e)
    | .binary op left right => do
      let x ← eval env budget left
      let y ← eval env budget right
      let z ← op.apply x.asOperand y.asOperand
      return .num z.normalize

end Expression

end LineScript
