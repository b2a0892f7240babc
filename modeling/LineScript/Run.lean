import LineScript.Condition
import LineScript.Line
import LineScript.Statement

set_option autoImplicit false

/-!
# Runs

A run walks a cursor over a range of lines and dispatches the lines at the
indent of the range.  Its state is what has been bound and printed; a fault ends
the run and leaves the state as it is.

The range shrinks with every step and every block, so a run is defined by
recursion on the number of lines left, for every cap on the loops and without
fuel.

Proved: the step equation of a range (`range_eq`), by which a run is a sequence
of statements, each of which moves the cursor on.
-/

namespace LineScript

/-- What a run has bound and printed so far. -/
structure State where
  env : Environment := .empty
  output : Array Text := #[]
  deriving DecidableEq, Inhabited

/-- The output as one text. -/
def State.text (s : State) : Text := ['\n'].intercalate s.output.toList

/-- How often a loop may run. -/
inductive LoopCap where
  /-- at most so many times; not at all if the number is negative -/
  | atMost (n : Int)
  /-- the caller set something that is no number -/
  | unusable
  deriving DecidableEq, Repr, Inhabited

instance : Coe Int LoopCap := ⟨.atMost⟩

/-- An action that reads and extends the state, and may fault. -/
abbrev Run := EStateM Fault State

namespace Run

/-! ## Simple statements -/

/-- A result, or the fault in its place. -/
def ofExcept {α : Type} : Except Fault α → Run α
  | .ok a => pure a
  | .error f => throw f

/-- The value of an expression in the state. -/
def evaluate (budget : Nat) (e : Text) : Run Value := do
  ofExcept (Expression.eval (← get).env budget e)

/-- Whether a condition holds in the state. -/
def holds (budget : Nat) (condition : Text) : Run Bool := do
  ofExcept (Condition.eval (← get).env budget condition)

/-- Evaluate every source, and only then bind the targets. -/
def assign (budget : Nat) (a : Assignment) : Run Unit := do
  let values ← ofExcept (a.sources.mapM (Expression.eval (← get).env budget))
  modify fun s => { s with env := s.env.bind a.targets values }

/-- Add one entry to the output: the text of the argument's value, or an empty
entry for a blank argument.  Without an argument nothing is printed. -/
def print (budget : Nat) : Option Text → Run Unit
  | none => pure ()
  | some argument => do
    let content := Text.strip argument
    let entry ← if content = [] then pure [] else do
      let v ← evaluate budget content
      ofExcept v.written
    modify fun s => { s with output := s.output.push entry }

/-! ## Blocks -/

/-- Run `body` as long as `test` holds, but at most so many times. -/
def whileUpTo (test : Run Bool) (body : Run Unit) : Nat → Run Unit
  | 0 => pure ()
  | n + 1 => do
    if ← test then
      body
      whileUpTo test body n

/-- How often a block may run under a cap on loops.  Only a loop needs the cap. -/
def runs : LoopCap → BlockKind → Except Fault Nat
  | _, .once => .ok 1
  | .atMost n, .repeated => .ok n.toNat
  | .unusable, .repeated => .error .capUnusable

/-- How much of the budget a block uses up. -/
def blockCost : Nat := 4

/-- Enter the block in `[start, stop)`: run it at the indent of its first
significant line.  A block without one has nothing to run. -/
def enter (lines : Lines) (start stop : Int) (range : Int → Run Int) : Run Unit :=
  match lines.bodyIndent start stop with
  | .error f => throw f
  | .ok none => pure ()
  | .ok (some level) => discard (range level)

/-- Run a block whose lines are run by `body`, if the budget allows one more. -/
def block (cap : LoopCap) (budget : Nat) (kind : BlockKind) (condition : Text)
    (body : Nat → Run Unit) : Run Unit :=
  match runs cap kind with
  | .error f => throw f
  | .ok n =>
    whileUpTo (holds budget condition)
      (if budget < blockCost then throw .nestingTooDeep else body (budget - blockCost)) n

/-! ## Ranges -/

/-- One step on leaves fewer lines. -/
theorem left_succ_lt {i stop : Int} (h : i < stop) :
    (stop - (i + 1)).toNat < (stop - i).toNat := by
  omega

/-- A block inside the range has fewer lines. -/
theorem left_block_lt {i stop next : Int} (h : i < stop) (hb : i < next ∧ next ≤ stop) :
    (next - (i + 1)).toNat < (stop - i).toNat := by
  omega

/-- A step past a block leaves fewer lines. -/
theorem left_next_lt {i stop next : Int} (h : i < stop) (hb : i < next ∧ next ≤ stop) :
    (stop - next).toNat < (stop - i).toNat := by
  omega

/-- Run the lines of `[i, stop)` at an indent, and return where the run ended: at
`stop`, or at the first significant line that is less indented.  Lines that are
indented deeper are passed over. -/
def range (cap : LoopCap) (lines : Lines) (budget : Nat) (i stop level : Int) : Run Int :=
  if hi : i < stop then
    match lines.lineAt i with
    | .error f => throw f
    | .ok line =>
      if Line.isFiller line then range cap lines budget (i + 1) stop level
      else if Line.indent line < level then pure i
      else if level < Line.indent line then range cap lines budget (i + 1) stop level
      else match Statement.ofLine (Text.strip line) with
        | .assign a => do
          assign budget a
          range cap lines budget (i + 1) stop level
        | .print argument => do
          print budget argument
          range cap lines budget (i + 1) stop level
        | .ignored => range cap lines budget (i + 1) stop level
        | .block kind condition =>
          match hb : lines.blockStop i (Line.indent line) stop with
          | .error f => throw f
          | .ok next => do
            have hn := Lines.blockStop_bounds hb hi
            block cap budget kind condition fun rest =>
              enter lines (i + 1) next fun inner => range cap lines rest (i + 1) next inner
            range cap lines budget next stop level
  else pure i
termination_by (stop - i).toNat
decreasing_by
  · exact left_succ_lt hi
  · exact left_succ_lt hi
  · exact left_succ_lt hi
  · exact left_succ_lt hi
  · exact left_succ_lt hi
  · exact left_block_lt hi hn
  · exact left_next_lt hi hn

/-- Run the lines of a block. -/
def body (cap : LoopCap) (lines : Lines) (budget : Nat) (start stop : Int) : Run Unit :=
  enter lines start stop fun level => range cap lines budget start stop level

/-- Run the statement of a line that stands at position `i` with an indent, and
return the position of the next statement. -/
def statement (cap : LoopCap) (lines : Lines) (budget : Nat) (i stop : Int) (line : Text)
    (indent : Int) : Run Int :=
  match Statement.ofLine line with
  | .assign a => do
    assign budget a
    return i + 1
  | .print argument => do
    print budget argument
    return i + 1
  | .ignored => pure (i + 1)
  | .block kind condition => do
    let next ← ofExcept (lines.blockStop i indent stop)
    block cap budget kind condition fun rest => body cap lines rest (i + 1) next
    return next

/-- A range is run statement by statement. -/
theorem range_eq (cap : LoopCap) (lines : Lines) (budget : Nat) (i stop level : Int) :
    range cap lines budget i stop level =
      if i < stop then do
        let line ← ofExcept (lines.lineAt i)
        if Line.isFiller line then range cap lines budget (i + 1) stop level
        else if Line.indent line < level then pure i
        else if level < Line.indent line then range cap lines budget (i + 1) stop level
        else do
          let next ← statement cap lines budget i stop (Text.strip line) (Line.indent line)
          range cap lines budget next stop level
      else pure i := by
  rw [range]
  split
  · cases lines.lineAt i with
    | error f => rfl
    | ok line =>
      simp only [ofExcept, pure_bind]
      split
      · rfl
      · split
        · rfl
        · split
          · rfl
          · unfold statement
            cases Statement.ofLine (Text.strip line) with
            | assign a => simp
            | print a => simp
            | ignored => simp
            | block kind condition =>
              simp only []
              split
              · rename_i f hb
                rw [hb]
                rfl
              · rename_i next hb
                rw [hb]
                simp [ofExcept, body]
  · rfl

end Run

end LineScript
