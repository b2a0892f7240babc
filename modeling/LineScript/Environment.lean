import LineScript.Value

set_option autoImplicit false

/-!
# Environments

An environment binds names to values.  A name is any text, and an unbound name
reads as the integer zero.

Proved: a binding changes what its own name reads as, and nothing else
(`get?_set`).
-/

namespace LineScript

/-- The bindings of a run, in the order in which the names were first bound. -/
structure Environment where
  bindings : List (Text × Value) := []
  deriving DecidableEq, Inhabited

namespace Environment

/-- No bindings. -/
def empty : Environment := ⟨[]⟩

/-- The value bound to a name. -/
def get? (env : Environment) (name : Text) : Option Value := env.bindings.lookup name

/-- The value that a name reads as. -/
def read (env : Environment) (name : Text) : Value := (env.get? name).getD (.int 0)

/-- Put a binding into a list, in place of the one that the name has there. -/
def insert (name : Text) (v : Value) : List (Text × Value) → List (Text × Value)
  | [] => [(name, v)]
  | b :: rest => if b.1 = name then (name, v) :: rest else b :: insert name v rest

/-- Bind a name. -/
def set (env : Environment) (name : Text) (v : Value) : Environment :=
  ⟨insert name v env.bindings⟩

/-- Bind several names in order, each to the value at its position, and to the
integer zero where the values have run out. -/
def bind (env : Environment) : List Text → List Value → Environment
  | [], _ => env
  | name :: names, [] => bind (env.set name (.int 0)) names []
  | name :: names, v :: values => bind (env.set name v) names values

theorem lookup_insert (name other : Text) (v : Value) (bs : List (Text × Value)) :
    (insert name v bs).lookup other = if other = name then some v else bs.lookup other := by
  induction bs with
  | nil =>
    rw [insert, List.lookup_cons, List.lookup_nil]
    by_cases h : other = name
    · rw [if_pos h, h, beq_self_eq_true]
    · rw [if_neg h, beq_eq_false_iff_ne.mpr h]
  | cons b rest ih =>
    obtain ⟨k, w⟩ := b
    rw [insert]
    by_cases hk : k = name
    · rw [if_pos hk, List.lookup_cons, List.lookup_cons, hk]
      by_cases h : other = name
      · rw [if_pos h, h, beq_self_eq_true]
      · rw [if_neg h, beq_eq_false_iff_ne.mpr h]
    · rw [if_neg hk, List.lookup_cons, List.lookup_cons, ih]
      by_cases h : other = k
      · have hne : other ≠ name := fun e => hk (h.symm.trans e)
        rw [if_neg hne, if_neg hne]
      · rw [beq_eq_false_iff_ne.mpr h]

/-- A binding changes what its own name reads as, and nothing else. -/
theorem get?_set (env : Environment) (name other : Text) (v : Value) :
    (env.set name v).get? other = if other = name then some v else env.get? other :=
  lookup_insert name other v env.bindings

end Environment

end LineScript
