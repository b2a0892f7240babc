import LineScript.Run

set_option autoImplicit false

/-!
# Programs

A program is a text of lines, run from its first line at indent zero with nothing
bound.  Whatever happens, the output printed so far is kept.

How deep a program may nest depends on how it is run, since the calls that are open
around the run count as well.
-/

namespace LineScript

/-- What a program has printed, and the fault that ended it, if one did. -/
structure Outcome where
  output : Text
  fault : Option Fault
  deriving DecidableEq, Repr, Inhabited

/-- What a fault-free or faulty end leaves to be seen. -/
def Outcome.ofResult : EStateM.Result Fault State Int → Outcome
  | .ok _ s => ⟨s.text, none⟩
  | .error f s => ⟨s.text, some f⟩

/-- How often a loop may run if nothing else is asked for. -/
def defaultCap : Int := 1000

/-- The ways to run a program. -/
inductive FrontEnd where
  /-- by itself -/
  | alone
  /-- as a source that is rendered first -/
  | source
  /-- in a request to the server -/
  | request
  /-- from a file, by the command -/
  | command
  deriving DecidableEq, Repr, Inhabited

/-- How many calls are open around the run, at the least. -/
def FrontEnd.callsAbove : FrontEnd → Nat
  | .alone => 0
  | .source => 1
  | .request => 2
  | .command => 2

/-- How deep a program may nest that is run in this way, at the most. -/
def FrontEnd.budget (f : FrontEnd) : Nat := nestingLimit - f.callsAbove

/-- Run the lines of a program in a state. -/
def runLines (cap : LoopCap) (lines : Lines) (budget : Nat := nestingLimit) : Run Int :=
  Run.range cap lines budget 0 lines.size 0

/-- Run a program under a cap on its loops. -/
def Outcome.ofProgram (cap : LoopCap) (code : Text) (budget : Nat := nestingLimit) : Outcome :=
  .ofResult (runLines cap (.ofText code) budget {})

end LineScript
