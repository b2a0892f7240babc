import LineScript.CommandLine.Arguments
import LineScript.CommandLine.Path
import LineScript.Text.Utf8
import LineScript.Rendering

set_option autoImplicit false

/-!
# The command

The command runs the program in a file and prints its output.  It is a function
of its arguments and of the files that it can see, so all that is left to the
outside is to fetch bytes and to write text.
-/

namespace LineScript.CommandLine

/-- What the command leaves: its status and what it wrote. -/
structure Exit where
  status : Nat
  stdout : Text := []
  stderr : Text := []
  deriving DecidableEq, Repr, Inhabited

/-! ## Texts -/

/-- What the command is called. -/
def commandName : Text := "python -m backend.indiclang".toList

/-- How the command is used. -/
def usage : Text :=
  "usage: ".toList ++ commandName ++ " [-h] [-v] [--show-code]\n".toList
    ++ "                                   [--max-loop MAX_LOOP]\n".toList
    ++ "                                   program\n".toList

/-- What the command tells about itself. -/
def helpText : Text :=
  usage ++ ("\nIndicLang interpreter\n\npositional arguments:\n".toList
    ++ "  program              program file to execute\n\noptions:\n".toList
    ++ "  -h, --help           show this help message and exit\n".toList
    ++ "  -v                   log debug records to stderr\n".toList
    ++ "  --show-code          print the executable text first\n".toList
    ++ "  --max-loop MAX_LOOP  while-loop iteration cap\n".toList)

/-- The record of a run in the log. -/
def logRecord (code : Text) : Text :=
  "DEBUG:backend.indiclang.interpreter:executing ".toList
    ++ Text.ofNat (Lines.ofText code).size ++ " lines\n".toList

/-- A text on lines of its own. -/
def printed (t : Text) : Text := t ++ ['\n']

/-! ## Running -/

/-- Refuse the arguments. -/
def refuse (e : UsageError) : Exit where
  status := 2
  stderr := usage ++ printed (commandName ++ ": error: ".toList ++ e.message)

/-- Report that there is no such file. -/
def notFound (path : Text) : Exit where
  status := 2
  stderr := printed ("Error: file ".toList ++ path ++ " not found".toList)

/-- Run a source text. -/
def runSource (options : Options) (source : Text) (budget : Nat) : Exit :=
  let report := Report.ofCode options.cap source budget
  let shown := if options.showCode then printed report.code ++ printed "---".toList else []
  let output := if report.output = [] then [] else printed report.output
  let logged := if options.verbose then logRecord report.code else []
  let complaint := match report.error with
    | none => []
    | some message => printed ("Runtime error: ".toList ++ message)
  { status := if report.error.isSome then 1 else 0
    stdout := shown ++ output
    stderr := logged ++ complaint }

/-- Run the command.  `file?` gives the bytes of the regular file at a path. -/
def run (file? : Text → Option (List UInt8)) (argv : List Text)
    (budget : Nat := FrontEnd.command.budget) : Except Text.Utf8Error Exit :=
  match parse argv with
  | .error e => .ok (refuse e)
  | .ok .help => .ok { status := 0, stdout := helpText }
  | .ok (.run options program) =>
    match file? (plainPath program) with
    | none => .ok (notFound (plainPath program))
    | some bytes =>
      (Text.utf8Decode bytes).map fun source =>
        runSource options (Text.unifyLineEnds source) budget

end LineScript.CommandLine
