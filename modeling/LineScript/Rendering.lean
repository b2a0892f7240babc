import LineScript.Datum
import LineScript.Program

set_option autoImplicit false

/-!
# Rendering a source as a program

A source text goes through a renderer and the text that comes out is run.  A
renderer may answer with something that is no text, or reject the source with a
message; nothing is run then.  It may also fail in a way of its own, which is the
caller's to handle.
-/

namespace LineScript

/-- What a renderer makes of a source. -/
inductive Rendering where
  | code (t : Text)
  | notText
  | rejected (message : Text)
  deriving DecidableEq, Repr, Inhabited

/-- A renderer, which may fail with an `ε`. -/
def Renderer (ε : Type) := Text → Except ε Rendering

namespace Renderer

variable {ε : Type}

/-- Take the source as it is. -/
def identity : Renderer ε := fun source => .ok (.code source)

/-- Replace texts everywhere, one pair after the other. -/
def replacing (pairs : List (Text × Text)) : Renderer ε := fun source =>
  .ok (.code (pairs.foldl (fun t pair => Text.replaceAll pair.1 pair.2 t) source))

/-- Put a text before the source and one after it. -/
def wrapping (before after : Text) : Renderer ε := fun source =>
  .ok (.code (before ++ source ++ after))

/-- Reject every source. -/
def rejecting (message : Text) : Renderer ε := fun _ => .ok (.rejected message)

/-- Answer with the same datum for every source. -/
def constant : Datum → Renderer ε
  | .scalar (.text t) => fun _ => .ok (.code t)
  | _ => fun _ => .ok .notText

/-- Fail on every source. -/
def failing (e : ε) : Renderer ε := fun _ => .error e

end Renderer

/-- What a source led to: the output, the error, if there was one, and the text
that was run. -/
structure Report where
  output : Text
  error : Option Text
  code : Text
  deriving DecidableEq, Repr, Inhabited

namespace Report

/-- Nothing was run, for a reason. -/
def refused (reason : Text) : Report := ⟨[], some reason, []⟩

/-- The report of a text that is run as it is. -/
def ofCode (cap : LoopCap) (code : Text) (budget : Nat) : Report :=
  let outcome := Outcome.ofProgram cap code budget
  ⟨outcome.output, outcome.fault.map Fault.message, code⟩

/-- Why something that is no text is not run. -/
def notTextReason : Text := "Translator did not return executable text".toList

/-- The report of a rendering. -/
def ofRendering (cap : LoopCap) (budget : Nat) : Rendering → Report
  | .code t => ofCode cap t budget
  | .notText => refused notTextReason
  | .rejected message => refused message

/-- Render a source and run what comes out. -/
def ofSource {ε : Type} (render : Renderer ε) (cap : LoopCap) (source : Text)
    (budget : Nat := FrontEnd.source.budget) : Except ε Report :=
  (render source).map (ofRendering cap budget)

end Report

end LineScript
