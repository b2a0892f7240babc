import LineScript.Integer
import LineScript.Program

set_option autoImplicit false

/-!
# The server's cap

The operator of a server may lower the cap on loops for everybody, and a client
may lower it for one request.  Neither can raise it.
-/

namespace LineScript.Server

/-- The tunables of a request, by name. -/
abbrev Settings := List (Text × Datum)

/-- The cap that no request can exceed, from the operator's setting.  An empty
setting is none. -/
def ceiling : Option Text → Except IntegerError Int
  | none => .ok defaultCap
  | some [] => .ok defaultCap
  | some setting => (Integer.ofText setting).map fun n => min n defaultCap

/-- The name of the tunable that asks for a cap. -/
def capKey : Text := "max_loop".toList

/-- The cap for a request.  With settings it is at least zero and at most the
ceiling; without any it is the ceiling, as the operator set it. -/
def capFor (ceiling : Int) : Settings → Except IntegerError Int
  | [] => .ok ceiling
  | settings =>
    match settings.lookup capKey with
    | none => .ok (max 0 ceiling)
    | some wanted => (Integer.ofDatum wanted).map fun n => max 0 (min n ceiling)

end LineScript.Server
