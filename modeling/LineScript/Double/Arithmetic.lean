import LineScript.Double.Basic

set_option autoImplicit false

/-!
# Doubles: arithmetic

The four operations, each the exact result rounded once.  A sum that is exactly
zero is positive unless both operands are negative; a product or quotient takes
its sign from both operands, also when it is zero or infinite.
-/

namespace LineScript.Double

/-- The signed number of units of a finite double. -/
def signed (negative : Bool) (size : Magnitude) : Int :=
  if negative then - (size.units : Int) else size.units

theorem signed_of_units_eq_zero {size : Magnitude} (h : size.units = 0) (s : Bool) :
    signed s size = 0 := by
  cases s with
  | false => simp [signed, h]
  | true => simp [signed, h]

theorem natAbs_signed (negative : Bool) (size : Magnitude) :
    (signed negative size).natAbs = size.units := by
  cases negative with
  | false => simp [signed]
  | true => simp [signed]

/-- The number with the other sign. -/
def neg : Double → Double
  | .nan => .nan
  | .infinite s => .infinite (!s)
  | .finite s x => .finite (!s) x

/-- The sum. -/
def add : Double → Double → Double
  | .nan, _ => .nan
  | _, .nan => .nan
  | .infinite s, .infinite t => if s = t then .infinite s else .nan
  | .infinite s, .finite _ _ => .infinite s
  | .finite _ _, .infinite t => .infinite t
  | .finite s x, .finite t y =>
    let sum := signed s x + signed t y
    if sum = 0 then zero (s && t) else ofRatio (sum < 0) sum.natAbs 1

/-- The difference. -/
def sub (x y : Double) : Double := add x (neg y)

/-- The product. -/
def mul : Double → Double → Double
  | .nan, _ => .nan
  | _, .nan => .nan
  | .infinite s, .infinite t => .infinite (s != t)
  | .infinite s, .finite t y => if y.units = 0 then .nan else .infinite (s != t)
  | .finite s x, .infinite t => if x.units = 0 then .nan else .infinite (s != t)
  | .finite s x, .finite t y => ofRatio (s != t) (x.units * y.units) unitsPerOne

/-- The quotient, by zero too, as the format of doubles has it. -/
def div : Double → Double → Double
  | .nan, _ => .nan
  | _, .nan => .nan
  | .infinite _, .infinite _ => .nan
  | .infinite s, .finite t _ => .infinite (s != t)
  | .finite s _, .infinite t => zero (s != t)
  | .finite s x, .finite t y =>
    if y.units = 0 then (if x.units = 0 then .nan else .infinite (s != t))
    else ofRatio (s != t) (x.units * unitsPerOne) y.units

/-- The integer left when the fraction is dropped. -/
def truncate (negative : Bool) (size : Magnitude) : Int :=
  if negative then - ((size.units / unitsPerOne : Nat) : Int)
  else (size.units / unitsPerOne : Nat)

/-- The magnitude is a whole number. -/
def Magnitude.isWhole (x : Magnitude) : Bool := x.units % unitsPerOne = 0

end LineScript.Double
