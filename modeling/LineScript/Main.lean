import LineScript.CommandLine.Command

set_option autoImplicit false

/-!
# The executable

Fetches the bytes of the program file, runs the command and writes what it
leaves.
-/

namespace LineScript

/-- The bytes of a file, if it can be read as one. -/
def fileBytes? (path : String) : IO (Option (List UInt8)) := do
  try
    return some (← IO.FS.readBinFile path).toList
  catch _ =>
    return none

/-- The path that a command line asks for, in its plain form. -/
def wantedPath? (argv : List Text) : Option Text :=
  match CommandLine.parse argv with
  | .ok (.run _ program) => some (CommandLine.plainPath program)
  | _ => none

end LineScript

open LineScript in
/-- Run the command on the arguments of the process. -/
def main (args : List String) : IO UInt32 := do
  let argv := args.map String.toList
  let bytes ← match wantedPath? argv with
    | some path => fileBytes? (String.ofList path)
    | none => pure none
  match CommandLine.run (fun _ => bytes) argv with
  | .ok result =>
    (← IO.getStdout).putStr (String.ofList result.stdout)
    (← IO.getStderr).putStr (String.ofList result.stderr)
    return result.status.toUInt32
  | .error e =>
    (← IO.getStderr).putStr (String.ofList (CommandLine.printed e.message))
    return 1
