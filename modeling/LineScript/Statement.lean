import LineScript.Text.Blank

set_option autoImplicit false

/-!
# Statements

What a line asks for, read off its text alone.  A line that holds an equals sign,
and neither `==` nor `!=`, is an assignment, whatever else it looks like; then
come `print(`, `if` and `while`; any other line is ignored.

An `if` and a `while` differ only in how often the block may run, so both are a
block with a condition.
-/

namespace LineScript

/-! ## Assignments -/

/-- Names, and the expressions whose values they are bound to. -/
structure Assignment where
  targets : List Text
  sources : List Text
  deriving DecidableEq, Repr, Inhabited

/-- Read an assignment.  Only commas before the equals sign make it one to
several names; without an equals sign the whole line is the name. -/
def Assignment.ofLine (line : Text) : Assignment :=
  let (target, source) := (Text.cut? ['='] line).getD (line, [])
  if ',' ∈ target then
    ⟨(target.splitOn ',').map Text.strip, source.splitOn ','⟩
  else ⟨[Text.strip target], [source]⟩

/-! ## Printing -/

/-- How a print statement starts. -/
def printOpening : Text := "print(".toList

/-- What a line asks to print: the text from an opening to the last closing
parenthesis before the end of the line.  The opening is the first one that has a
closing parenthesis after it. -/
def printArgument? : Text → Option Text
  | [] => none
  | c :: cs =>
    if printOpening.isPrefixOf (c :: cs) then
      match Text.beforeLast? ')' (((c :: cs).drop printOpening.length).takeWhile (· ≠ '\n')) with
      | some argument => some argument
      | none => printArgument? cs
    else printArgument? cs

/-! ## Blocks -/

/-- How often a block may run. -/
inductive BlockKind where
  /-- at most once -/
  | once
  /-- as long as its condition holds -/
  | repeated
  deriving DecidableEq, Repr, Inhabited

/-- The word that opens a block, with the space after it. -/
def BlockKind.keyword : BlockKind → Text
  | .once => "if ".toList
  | .repeated => "while ".toList

/-- The condition of a header: what follows the keyword, without blanks at its
ends and without one colon at its end. -/
def conditionAfter (keyword line : Text) : Text :=
  Text.strip (Text.dropTrailing ':' (Text.strip (line.drop keyword.length)))

/-! ## Statements -/

/-- What a line asks for. -/
inductive Statement where
  | assign (a : Assignment)
  | print (argument : Option Text)
  | block (kind : BlockKind) (condition : Text)
  | ignored
  deriving DecidableEq, Repr, Inhabited

/-- The line holds an equals sign that is not part of `==` or `!=`. -/
def isAssignment (line : Text) : Bool :=
  '=' ∈ line && !Text.occurs "==".toList line && !Text.occurs "!=".toList line

/-- Read the statement of a line that has no blanks at its ends. -/
def Statement.ofLine (line : Text) : Statement :=
  if isAssignment line then .assign (.ofLine line)
  else if printOpening.isPrefixOf line then .print (printArgument? line)
  else if BlockKind.once.keyword.isPrefixOf line then
    .block .once (conditionAfter BlockKind.once.keyword line)
  else if BlockKind.repeated.keyword.isPrefixOf line then
    .block .repeated (conditionAfter BlockKind.repeated.keyword line)
  else .ignored

end LineScript
