import LineScript.Number
import LineScript.Text.Blank

set_option autoImplicit false

/-!
# Values

A value is a number, a text or a truth value.  A value is never refused: each
rule below says how a value of another kind is read instead.

Proved: a text is asked whether it is numeric before it is read as a double, so the
reader never refuses it (`Value.readText_eq`).
-/

namespace LineScript

/-- What a name can be bound to. -/
inductive Value where
  | num (n : Number)
  | text (t : Text)
  | bool (b : Bool)
  deriving DecidableEq, Inhabited

namespace Value

/-- An integer as a value. -/
def int (n : Int) : Value := .num (.int n)

/-- The number that the value is; a truth value is none. -/
def number? : Value → Option Number
  | .num n => some n
  | _ => none

/-- The value with an integer past the safe limit moved over to a double. -/
def normalize : Value → Value
  | .num n => .num n.normalize
  | v => v

/-- The value as an operand of arithmetic: what is no number counts as zero. -/
def asOperand (v : Value) : Number := v.number?.getD (.int 0)

/-- Read the number that a text is compared as: a blank text is zero, and a text that
is no numeric text has no place among the numbers. -/
def readText (t : Text) : Except Fault Number :=
  let body := Text.strip t
  if body = [] then .ok (.int 0)
  else if Decimal.isNumericText body then Number.readDouble body
  else .ok (.double .nan)

/-- Only a numeric text is read as a double, so no text is refused. -/
theorem readText_eq (t : Text) :
    readText t = .ok (if Text.strip t = [] then .int 0
      else match Decimal.ofNumericText? (Text.strip t) with
        | some d => .double (.ofDecimal d)
        | none => .double .nan) := by
  have hnumeric := Decimal.isSome_ofNumericText? (Text.strip t)
  rw [readText]
  split
  · rfl
  · split
    · rename_i h
      rw [h, Option.isSome_iff_exists] at hnumeric
      obtain ⟨d, hd⟩ := hnumeric
      rw [Number.readDouble, Double.ofText?_eq_of_isNumericText h, hd]
      rfl
    · rename_i h
      rw [Bool.not_eq_true] at h
      rw [h, Option.isSome_eq_false_iff, Option.isNone_iff_eq_none] at hnumeric
      rw [hnumeric]

theorem isSome_readText (t : Text) : (readText t).toOption.isSome = true := by
  rw [readText_eq]
  rfl

/-- The number that a text is compared as. -/
def textNumber (t : Text) : Number := (readText t).toOption.get (isSome_readText t)

theorem textNumber_eq (t : Text) :
    textNumber t = if Text.strip t = [] then .int 0
      else match Decimal.ofNumericText? (Text.strip t) with
        | some d => .double (.ofDecimal d)
        | none => .double .nan :=
  Option.get_of_eq_some _ (congrArg Except.toOption (readText_eq t))

/-- The value as one side of a comparison. -/
def asNumber : Value → Number
  | .num n => n
  | .text t => textNumber t
  | .bool b => .int (if b then 1 else 0)

/-- Equality across kinds: two texts or two truth values are compared as they
are, any other two values as numbers. -/
def agrees : Value → Value → Bool
  | .text s, .text t => s = t
  | .bool a, .bool b => a = b
  | v, w => v.asNumber.same w.asNumber

/-- The value counts as true in a condition. -/
def countsAsTrue : Value → Bool
  | .num n => !n.isNaN && !n.isZero
  | .text t => t ≠ []
  | .bool b => b

/-- The text that printing a value adds to the output. -/
def written : Value → Except Fault Text
  | .num n => n.written
  | .text t => .ok t
  | .bool true => .ok "True".toList
  | .bool false => .ok "False".toList

end Value

end LineScript
