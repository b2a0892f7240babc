import LineScript.Server.Cap
import LineScript.Rendering

set_option autoImplicit false

/-!
# Requests to the server

A request carries a program and, if the client wants, settings.  Data that is no
request is answered with everything that is wrong with it, in the order of the
fields; a request is always answered with a report.
-/

namespace LineScript.Server

/-- What is wrong with the data of a request. -/
inductive Violation where
  | notObject
  | codeMissing
  | codeNotText
  | settingsNotObject
  deriving DecidableEq, Repr, Inhabited

namespace Violation

/-- The kind of a violation. -/
def kind : Violation → Text
  | .notObject => "model_type".toList
  | .codeMissing => "missing".toList
  | .codeNotText => "string_type".toList
  | .settingsNotObject => "dict_type".toList

/-- The field that a violation is about, if it is about one. -/
def field? : Violation → Option Text
  | .notObject => none
  | .codeMissing => some "code".toList
  | .codeNotText => some "code".toList
  | .settingsNotObject => some "settings".toList

/-- What a violation is reported as. -/
def message : Violation → Text
  | .notObject => "Input should be a valid dictionary or instance of RunRequest".toList
  | .codeMissing => "Field required".toList
  | .codeNotText => "Input should be a valid string".toList
  | .settingsNotObject => "Input should be a valid dictionary".toList

end Violation

/-- A program to run, and the client's settings. -/
structure Request where
  code : Text
  settings : Settings
  deriving Inhabited

namespace Request

/-- The program among the fields. -/
def code? (fields : List (Text × Datum)) : Except Violation Text :=
  match fields.lookup "code".toList with
  | none => .error .codeMissing
  | some (.scalar (.text t)) => .ok t
  | some _ => .error .codeNotText

/-- The settings among the fields; none if they are absent or null. -/
def settings? (fields : List (Text × Datum)) : Except Violation Settings :=
  match fields.lookup "settings".toList with
  | none => .ok []
  | some .null => .ok []
  | some (.object settings) => .ok settings
  | some _ => .error .settingsNotObject

/-- Read a request, or list what is wrong with it. -/
def ofDatum : Datum → Except (List Violation) Request
  | .object fields =>
    match code? fields, settings? fields with
    | .ok code, .ok settings => .ok ⟨code, settings⟩
    | .ok _, .error v => .error [v]
    | .error v, .ok _ => .error [v]
    | .error v, .error w => .error [v, w]
  | _ => .error [.notObject]

/-- Run a request under a ceiling. -/
def answer (ceiling : Int) (r : Request) (budget : Nat := FrontEnd.request.budget) : Report :=
  match capFor ceiling r.settings with
  | .ok cap => .ofCode cap r.code budget
  | .error e => .refused e.message

end Request

/-- What a server that is up says of itself. -/
def health : Text := "ok".toList

end LineScript.Server
