import LineScript.Integer
import LineScript.Program

set_option autoImplicit false

/-!
# Arguments

The command takes one program and any number of flags, in any order.  A long flag
may be cut short as long as it stays the only one of its beginning, and may carry
its value after an equals sign; short flags may be written together.  After a
lone `--` nothing is a flag.

Words are classified first (`Word.ofTexts`), and then read from left to right
(`Progress.read`), so the first thing wrong is the one that is reported.
-/

namespace LineScript.CommandLine

/-! ## Flags -/

/-- The flags of the command. -/
inductive Flag where
  | help
  | verbose
  | showCode
  | maxLoop
  deriving DecidableEq, Repr, Inhabited

namespace Flag

/-- The flags with long names. -/
def long : List (Text × Flag) :=
  [("--help".toList, .help), ("--show-code".toList, .showCode), ("--max-loop".toList, .maxLoop)]

/-- The flag of a letter. -/
def ofLetter? : Char → Option Flag
  | 'h' => some .help
  | 'v' => some .verbose
  | _ => none

/-- How messages call a flag. -/
def name : Flag → Text
  | .help => "-h/--help".toList
  | .verbose => "-v".toList
  | .showCode => "--show-code".toList
  | .maxLoop => "--max-loop".toList

end Flag

/-! ## Usage errors -/

/-- What is wrong with the arguments. -/
inductive UsageError where
  /-- there is no program -/
  | programMissing
  /-- there are words too many -/
  | unrecognized (words : List Text)
  /-- a flag lacks its value -/
  | valueMissing (flag : Flag)
  /-- a flag has a value that it does not take -/
  | valueIgnored (flag : Flag) (value : Text)
  /-- a value is no integer -/
  | notInteger (flag : Flag) (value : Text)
  /-- a word begins more than one flag -/
  | ambiguous (word : Text) (names : List Text)
  deriving DecidableEq, Repr, Inhabited

/-- What a usage error is reported as. -/
def UsageError.message : UsageError → Text
  | .programMissing => "the following arguments are required: program".toList
  | .unrecognized words => "unrecognized arguments: ".toList ++ [' '].intercalate words
  | .valueMissing flag => "argument ".toList ++ flag.name ++ ": expected one argument".toList
  | .valueIgnored flag value =>
    "argument ".toList ++ flag.name ++ ": ignored explicit argument ".toList ++ Text.quoted value
  | .notInteger flag value =>
    "argument ".toList ++ flag.name ++ ": invalid int value: ".toList ++ Text.quoted value
  | .ambiguous word names =>
    "ambiguous option: ".toList ++ word ++ " could match ".toList ++ ", ".toList.intercalate names

/-! ## Words -/

/-- What a word of the command line is. -/
inductive Word where
  | argument (t : Text)
  /-- the first lone `--` -/
  | separator
  /-- a long flag, with the value after its equals sign -/
  | long (flag : Flag) (value : Option Text)
  /-- a short flag, with all that follows its letter in the word -/
  | short (flag : Flag) (rest : Text)
  | unknown (t : Text)
  deriving DecidableEq, Repr, Inhabited

namespace Word

/-- The character is a decimal digit of some script. -/
def isDecimal (c : Char) : Bool := (Text.digitValue? c).isSome

/-- What follows the minus sign of a negative number: digits, of which a last
part may stand after a point.  One line feed may stand at the end. -/
def isUnsigned (t : Text) : Bool :=
  let body := Text.dropTrailing '\n' t
  match body.dropWhile isDecimal with
  | [] => body ≠ []
  | '.' :: fraction => fraction ≠ [] && fraction.all isDecimal
  | _ => false

/-- A word with a minus sign in front that is no flag. -/
def ofDashed (word : Text) : Word :=
  if isUnsigned (word.drop 1) || ' ' ∈ word then .argument word else .unknown word

/-- A word with two minus signs in front: the one long flag that it begins. -/
def ofLong (word : Text) : Except UsageError Word :=
  let (start, value) := match Text.cut? ['='] word with
    | some (before, after) => (before, some after)
    | none => (word, none)
  match Flag.long.filter fun entry => start.isPrefixOf entry.1 with
  | [] => .ok (ofDashed word)
  | [(_, flag)] => .ok (.long flag value)
  | several => .error (.ambiguous word (several.map Prod.fst))

/-- Classify one word. -/
def ofText : Text → Except UsageError Word
  | '-' :: '-' :: rest => ofLong ('-' :: '-' :: rest)
  | '-' :: letter :: rest =>
    match Flag.ofLetter? letter with
    | some flag => .ok (.short flag rest)
    | none => .ok (ofDashed ('-' :: letter :: rest))
  | word => .ok (.argument word)

/-- Classify the words of a command line. -/
def ofTexts : List Text → Except UsageError (List Word)
  | [] => .ok []
  | word :: rest =>
    if word = "--".toList then .ok (.separator :: rest.map .argument)
    else do
      let first ← ofText word
      return first :: (← ofTexts rest)

end Word

/-! ## Short flags -/

/-- A flag and those that the letters after it stand for.  None of them takes a
value, so a letter that stands for no flag is one too many. -/
def cluster (flag : Flag) : Text → Except UsageError (List Flag)
  | [] => .ok [flag]
  | letter :: rest =>
    match Flag.ofLetter? letter with
    | some next => (cluster next rest).map (flag :: ·)
    | none => .error (.valueIgnored flag (letter :: rest))

/-- The flags of a word of short flags.  An equals sign after the first letter is
passed over, if anything follows it. -/
def shortFlags (flag : Flag) : Text → Except UsageError (List Flag)
  | ['='] => .error (.valueIgnored flag [])
  | '=' :: rest => cluster flag rest
  | rest => cluster flag rest

/-! ## Reading -/

/-- What the flags ask for. -/
structure Options where
  verbose : Bool := false
  showCode : Bool := false
  cap : LoopCap := defaultCap
  deriving DecidableEq, Repr, Inhabited

/-- What the command is to do. -/
inductive Invocation where
  | help
  | run (options : Options) (program : Text)
  deriving DecidableEq, Repr, Inhabited

/-- What has been read so far. -/
structure Progress where
  options : Options := {}
  program : Option Text := none
  /-- the words that nothing takes, last first -/
  extras : List Text := []
  deriving DecidableEq, Repr, Inhabited

namespace Progress

/-- Note a flag that takes no value; none if it asks for help. -/
def note (p : Progress) : Flag → Option Progress
  | .help => none
  | .verbose => some { p with options := { p.options with verbose := true } }
  | .showCode => some { p with options := { p.options with showCode := true } }
  | .maxLoop => some p

/-- Note several flags. -/
def noteAll (p : Progress) (flags : List Flag) : Option Progress := flags.foldlM note p

/-- Note a word that nothing takes. -/
def extra (p : Progress) (word : Text) : Progress := { p with extras := word :: p.extras }

/-- The cap that a value stands for.  A lone `--` is the separator wherever it
stands, which leaves no value to read. -/
def capOf (value : Text) : Except UsageError LoopCap :=
  if value = "--".toList then .ok .unusable
  else match Integer.ofText value with
    | .ok n => .ok (.atMost n)
    | .error _ => .error (.notInteger .maxLoop value)

/-- Note the value of the cap. -/
def setCap (p : Progress) (value : Text) : Except UsageError Progress :=
  (capOf value).map fun cap => { p with options := { p.options with cap := cap } }

/-- Note an argument: the program, if there is none yet. -/
def argument (p : Progress) (t : Text) : Progress :=
  match p.program with
  | none => { p with program := some t }
  | some _ => p.extra t

/-- What has been read, once nothing is left. -/
def finish (p : Progress) : Except UsageError Invocation :=
  match p.program, p.extras with
  | none, _ => .error .programMissing
  | some program, [] => .ok (.run p.options program)
  | some _, extras => .error (.unrecognized extras.reverse)

/-- Read words from left to right.  The separator goes with the program, if the
program stands next to it. -/
def read (p : Progress) : List Word → Except UsageError Invocation
  | [] => p.finish
  | .argument t :: .separator :: rest =>
    match p.program with
    | none => read (p.argument t) rest
    | some _ => read ((p.argument t).extra "--".toList) rest
  | .argument t :: rest => read (p.argument t) rest
  | .separator :: rest =>
    match p.program with
    | none => read p rest
    | some _ => read (p.extra "--".toList) rest
  | .unknown t :: rest => read (p.extra t) rest
  | .short flag tail :: rest =>
    match shortFlags flag tail with
    | .error e => .error e
    | .ok flags =>
      match p.noteAll flags with
      | none => .ok .help
      | some p' => read p' rest
  | .long .maxLoop (some value) :: rest =>
    match p.setCap value with
    | .error e => .error e
    | .ok p' => read p' rest
  | .long .maxLoop none :: .argument value :: rest =>
    match p.setCap value with
    | .error e => .error e
    | .ok p' => read p' rest
  | .long .maxLoop none :: _ => .error (.valueMissing .maxLoop)
  | .long flag (some value) :: _ => .error (.valueIgnored flag value)
  | .long flag none :: rest =>
    match p.note flag with
    | none => .ok .help
    | some p' => read p' rest

end Progress

/-- Read a command line. -/
def parse (argv : List Text) : Except UsageError Invocation :=
  match Word.ofTexts argv with
  | .ok words => Progress.read {} words
  | .error e => .error e

end LineScript.CommandLine
