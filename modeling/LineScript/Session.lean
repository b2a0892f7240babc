import LineScript.Program

set_option autoImplicit false

/-!
# Sessions

A session holds a cap on loops, the lines of a program and a state, and takes
steps on them: it runs a range, the body of a block, one statement, or a program
of its own.  A step that faults leaves what it had done, and the session goes on.
-/

namespace LineScript

/-- The cap, the lines and the state that the steps share. -/
structure Session where
  cap : LoopCap := defaultCap
  lines : Lines := #[]
  state : State := {}
  deriving Inhabited

namespace Session

/-- One step of a session. -/
inductive Step where
  /-- run a program in a state of its own -/
  | program (code : Text)
  /-- change the cap -/
  | setCap (cap : Int)
  /-- run a range of the lines at an indent -/
  | range (start stop level : Int)
  /-- run a range of the lines as the body of a block -/
  | body (start stop : Int)
  /-- run the statement of a line as if it stood at a position -/
  | statement (i stop : Int) (line : Text) (indent : Int)
  /-- read a line as an assignment and run it -/
  | assign (line : Text)
  /-- read a line as a print statement and run it -/
  | print (line : Text)
  deriving Inhabited

/-- What a step answers. -/
inductive Answer where
  | outcome (o : Outcome)
  | cap (n : Int)
  /-- the position that the step returned, if it returns one, or its fault -/
  | ran (returned : Except Fault (Option Int))
  deriving Inhabited

/-- Take an action on the state. -/
def act (s : Session) (action : Run (Option Int)) : Answer × Session :=
  match action s.state with
  | .ok returned state => (.ran (.ok returned), { s with state := state })
  | .error f state => (.ran (.error f), { s with state := state })

/-- Take a step. -/
def step (s : Session) : Step → Answer × Session
  | .program code => (.outcome (.ofProgram s.cap code), s)
  | .setCap cap => (.cap cap, { s with cap := cap })
  | .range start stop level =>
    s.act (some <$> Run.range s.cap s.lines nestingLimit start stop level)
  | .body start stop =>
    s.act ((fun _ => none) <$> Run.body s.cap s.lines nestingLimit start stop)
  | .statement i stop line indent =>
    s.act (some <$> Run.statement s.cap s.lines nestingLimit i stop line indent)
  | .assign line => s.act ((fun _ => none) <$> Run.assign nestingLimit (.ofLine line))
  | .print line => s.act ((fun _ => none) <$> Run.print nestingLimit (printArgument? line))

/-- Take steps in order: each answer with the state after its step. -/
def steps (s : Session) : List Step → List (Answer × State)
  | [] => []
  | next :: rest =>
    let (answer, s') := s.step next
    (answer, s'.state) :: steps s' rest

end Session

end LineScript
