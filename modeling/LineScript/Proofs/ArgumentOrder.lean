import LineScript.Proofs.FrontEnds

set_option autoImplicit false

/-!
# The order of arguments

A command line has one program and any number of settings, before it and after it: that the
run be logged, that the code be shown, and caps, each in a word of its own after its flag or
joined to it.  A cap below zero starts like a flag and is none.

Proved: settings are classified word by word (`Word.ofTexts_settings`) and noted one by one
(`Progress.read_settings`), wherever the program stands between them (`parse_words`); a flag
counts if it is there at all, and of the caps the last one counts (`Setting.foldl_note`).  So
the command behaves alike for all command lines that ask for the same things
(`run_in_any_order`).
-/

namespace LineScript.CommandLine

/-! ## Settings -/

/-- A numeral that a cap is given by: digits, and a minus sign or none. -/
structure CapNumeral where
  negative : Bool
  digits : Text
  isDigits : digits.IsDigits
  length_le : digits.length ≤ numeralLimit
  deriving DecidableEq

namespace CapNumeral

/-- How the numeral is written. -/
def text (n : CapNumeral) : Text := if n.negative then '-' :: n.digits else n.digits

/-- The cap that the numeral denotes. -/
def value (n : CapNumeral) : Int :=
  if n.negative then - (Text.value n.digits : Int) else Text.value n.digits

end CapNumeral

/-- One thing that a command line can ask for besides its program. -/
inductive Setting where
  | verbose
  | showCode
  /-- a cap in a word of its own -/
  | cap (n : CapNumeral)
  /-- a cap in one word with its flag -/
  | joinedCap (n : CapNumeral)
  deriving DecidableEq

namespace Setting

/-- How a setting is written. -/
def words : Setting → List Text
  | .verbose => ["-v".toList]
  | .showCode => ["--show-code".toList]
  | .cap n => ["--max-loop".toList, n.text]
  | .joinedCap n => ["--max-loop".toList ++ '=' :: n.text]

/-- The cap that a setting asks for. -/
def cap? : Setting → Option Int
  | .cap n => some n.value
  | .joinedCap n => some n.value
  | _ => none

/-- What the words of a setting are. -/
def tokens : Setting → List Word
  | .verbose => [.short .verbose []]
  | .showCode => [.long .showCode none]
  | .cap n => [.long .maxLoop none, .argument n.text]
  | .joinedCap n => [.long .maxLoop (some n.text)]

/-- The options after one more setting. -/
def note (o : Options) : Setting → Options
  | .verbose => { o with verbose := true }
  | .showCode => { o with showCode := true }
  | .cap n => { o with cap := n.value }
  | .joinedCap n => { o with cap := n.value }

end Setting

/-- A command line: a program that does not start like a flag, with settings before it and
after it. -/
structure Arguments where
  before : List Setting
  program : Text
  after : List Setting
  head?_program : program.head? ≠ some '-'

namespace Arguments

/-- The words of the command line. -/
def words (a : Arguments) : List Text :=
  a.before.flatMap Setting.words ++ a.program :: a.after.flatMap Setting.words

/-- All settings, in order. -/
def settings (a : Arguments) : List Setting := a.before ++ a.after

/-- The cap that counts: the last one that is given, or the default. -/
def cap (a : Arguments) : Int := (a.settings.filterMap Setting.cap?).getLast?.getD 1000

/-- Two command lines ask for the same things: for a log or not, for the code or not, for
the same cap and for the same file. -/
structure AsksAlike (a b : Arguments) : Prop where
  verbose : Setting.verbose ∈ a.settings ↔ Setting.verbose ∈ b.settings
  showCode : Setting.showCode ∈ a.settings ↔ Setting.showCode ∈ b.settings
  cap : a.cap = b.cap
  file : plainPath a.program = plainPath b.program

end Arguments

/-! ## Classifying -/

/-- A minus sign and digits are an argument, since no flag is a digit. -/
theorem Word.ofText_negative {digits : Text} (h : digits.IsDigits) :
    ofText ('-' :: digits) = .ok (.argument ('-' :: digits)) := by
  have hall : ∀ c ∈ digits, c.isDigit = true := List.all_eq_true.mp h.all_digits
  have hdecimal : ∀ c ∈ digits, isDecimal c = true := by
    intro c hc
    rw [isDecimal, Text.digitValue?_of_isDigit (hall c hc)]
    rfl
  have hunsigned : isUnsigned digits = true := by
    have hlast : digits.getLast? ≠ some '\n' := by
      intro hlast
      exact absurd (hall '\n' (List.mem_of_getLast? hlast)) (by decide)
    have hdrop : digits.dropWhile isDecimal = [] := List.dropWhile_eq_nil_iff.mpr hdecimal
    rw [isUnsigned, Text.dropTrailing, if_neg hlast, hdrop]
    exact decide_eq_true h.ne_nil
  obtain ⟨d, ds, rfl⟩ := List.exists_cons_of_ne_nil h.ne_nil
  have hd := hall d List.mem_cons_self
  have hdash : d ≠ '-' := by
    rintro rfl
    exact absurd hd (by decide)
  have hletter : Flag.ofLetter? d = none := by
    unfold Flag.ofLetter?
    split
    · exact absurd hd (by decide)
    · exact absurd hd (by decide)
    · rfl
  rw [ofText, hletter]
  · simp only [ofDashed, List.drop_one, List.tail_cons, hunsigned, Bool.true_or, if_true]
  · exact hdash

namespace CapNumeral

theorem text_ne_separator (n : CapNumeral) : n.text ≠ "--".toList := by
  intro h
  have hdash : '-' ∈ n.digits := by
    rw [text] at h
    split at h
    · rw [(List.cons.inj h).2]
      exact List.mem_cons_self
    · rw [h]
      exact List.mem_cons_self
  exact absurd (List.all_eq_true.mp n.isDigits.all_digits '-' hdash) (by decide)

theorem ofText_text (n : CapNumeral) : Word.ofText n.text = .ok (.argument n.text) := by
  rw [text]
  split
  · exact Word.ofText_negative n.isDigits
  · exact Word.ofText_argument (n.isDigits.head?_ne rfl)

/-- A cap is read from its numeral. -/
theorem integer_text (n : CapNumeral) : Integer.ofText n.text = .ok n.value := by
  rw [text, value]
  cases n.negative with
  | true => exact Integer.ofText_signed rfl rfl n.isDigits n.length_le
  | false => exact Integer.ofText_digits n.isDigits n.length_le

end CapNumeral

namespace Word

/-- The words of a setting are classified by themselves, whatever follows them. -/
theorem ofTexts_setting (s : Setting) (rest : List Text) :
    ofTexts (s.words ++ rest) = (ofTexts rest).map (s.tokens ++ ·) := by
  cases s with
  | verbose => exact ofTexts_cons rest (by decide) rfl
  | showCode => exact ofTexts_cons rest (by decide) rfl
  | joinedCap n => exact ofTexts_maxLoop_eq rest n.text
  | cap n =>
    have hnumeral := ofTexts_cons rest n.text_ne_separator n.ofText_text
    rw [Setting.words, List.cons_append, List.singleton_append, ofTexts_maxLoop, hnumeral]
    cases ofTexts rest with
    | ok words => rfl
    | error e => rfl

theorem ofTexts_settings (settings : List Setting) (rest : List Text) :
    ofTexts (settings.flatMap Setting.words ++ rest) =
      (ofTexts rest).map (settings.flatMap Setting.tokens ++ ·) := by
  induction settings with
  | nil =>
    rw [List.flatMap_nil, List.nil_append]
    cases ofTexts rest with
    | ok words => rfl
    | error e => rfl
  | cons s settings ih =>
    rw [List.flatMap_cons, List.append_assoc, ofTexts_setting, ih, List.flatMap_cons]
    cases ofTexts rest with
    | ok words => exact congrArg Except.ok (List.append_assoc _ _ _).symm
    | error e => rfl

end Word

/-! ## Reading -/

namespace Progress

variable (p : Progress)

theorem setCap_text (n : CapNumeral) :
    p.setCap n.text = .ok { p with options := { p.options with cap := n.value } } := by
  rw [setCap, capOf, if_neg n.text_ne_separator, n.integer_text]
  rfl

/-- Reading a setting notes it, whatever follows it. -/
theorem read_setting (s : Setting) (rest : List Word) :
    p.read (s.tokens ++ rest) = read { p with options := s.note p.options } rest := by
  cases s with
  | verbose => rfl
  | showCode => rfl
  | cap n =>
    rw [Setting.tokens, List.cons_append, List.singleton_append, read, setCap_text]
    rfl
  | joinedCap n =>
    rw [Setting.tokens, List.singleton_append, read, setCap_text]
    rfl

/-- Reading settings notes them in their order. -/
theorem read_settings (settings : List Setting) (rest : List Word) :
    p.read (settings.flatMap Setting.tokens ++ rest) =
      read { p with options := settings.foldl Setting.note p.options } rest := by
  induction settings generalizing p with
  | nil => rfl
  | cons s settings ih =>
    rw [List.flatMap_cons, List.append_assoc, read_setting, ih]
    rfl

/-- An argument is read by itself, unless the separator is next to it. -/
theorem read_argument (t : Text) {rest : List Word} (h : rest.head? ≠ some .separator) :
    p.read (.argument t :: rest) = (p.argument t).read rest := by
  rw [read]
  rintro rest' rfl
  exact h rfl

end Progress

/-- The words of settings do not start with the separator. -/
theorem Setting.head?_tokens (settings : List Setting) :
    (settings.flatMap tokens).head? ≠ some .separator := by
  cases settings with
  | nil => simp
  | cons s settings =>
    cases s with
    | verbose => simp [tokens]
    | showCode => simp [tokens]
    | cap n => simp [tokens]
    | joinedCap n => simp [tokens]

/-- Flags count if they are there, and of the caps the last one counts. -/
theorem Setting.foldl_note (settings : List Setting) (o : Options) :
    settings.foldl note o =
      { verbose := o.verbose || decide (Setting.verbose ∈ settings)
        showCode := o.showCode || decide (Setting.showCode ∈ settings)
        cap := ((settings.filterMap cap?).getLast?.map LoopCap.atMost).getD o.cap } := by
  induction settings generalizing o with
  | nil => simp
  | cons s settings ih =>
    rw [List.foldl_cons, ih]
    cases s with
    | verbose => simp [note, cap?]
    | showCode => simp [note, cap?]
    | cap n | joinedCap n =>
      -- the cap is the last one unless the rest has one
      simp only [List.filterMap_cons, cap?, List.getLast?_cons, note]
      cases (settings.filterMap cap?).getLast? with
      | none => simp
      | some m => simp

namespace Arguments

/-- The options that the settings come to. -/
def options (a : Arguments) : Options where
  verbose := decide (Setting.verbose ∈ a.settings)
  showCode := decide (Setting.showCode ∈ a.settings)
  cap := a.cap

theorem foldl_settings (a : Arguments) : a.settings.foldl Setting.note {} = a.options := by
  rw [Setting.foldl_note, options, cap]
  cases (a.settings.filterMap Setting.cap?).getLast? with
  | none => simp [defaultCap]
  | some n => simp

/-- The command reads its program and its options, wherever the program stands. -/
theorem parse_words (a : Arguments) : parse a.words = .ok (.run a.options a.program) := by
  have hwords : Word.ofTexts a.words = .ok (a.before.flatMap Setting.tokens ++
      .argument a.program :: a.after.flatMap Setting.tokens) := by
    have hafter := Word.ofTexts_settings a.after []
    rw [List.append_nil] at hafter
    rw [words, Word.ofTexts_settings, Word.ofTexts_argument _ a.head?_program, hafter]
    simp only [Word.ofTexts, Except.map, List.append_nil]
  have hafter := Progress.read_settings
    { options := a.before.foldl Setting.note {}, program := some a.program } a.after []
  rw [List.append_nil, ← List.foldl_append] at hafter
  rw [parse, hwords]
  simp only [Progress.read_settings, Progress.read_argument _ _ (Setting.head?_tokens a.after)]
  rw [← foldl_settings]
  exact hafter

/-- Command lines that ask for the same things come to the same options. -/
theorem AsksAlike.options_eq {a b : Arguments} (h : a.AsksAlike b) : a.options = b.options := by
  simp only [options, h.verbose, h.showCode, h.cap]

end Arguments

/-! ## Behaving -/

/-- What the command leaves of a program that was run for a command line.  Nothing is said
about the log of a run that faults. -/
structure Exit.Leaves (e : Exit) (a : Arguments) (code : Text) (outcome : Outcome) : Prop where
  stdout_eq : e.stdout =
    (if Setting.showCode ∈ a.settings then code ++ "\n---\n".toList else []) ++
      if outcome.output = [] then [] else outcome.output ++ ['\n']
  status_eq : e.status = if outcome.fault = none then 0 else 1
  stderr_of_end : outcome.fault = none →
    e.stderr = if Setting.verbose ∈ a.settings then logRecord code else []
  stderr_of_fault : ∀ fault, outcome.fault = some fault → Setting.verbose ∉ a.settings →
    e.stderr = "Runtime error: ".toList ++ fault.message ++ ['\n']

theorem runSource_leaves (a : Arguments) (code : Text) (budget : Nat) :
    (runSource a.options code budget).Leaves a code (Outcome.ofProgram a.cap code budget) := by
  have hcap : a.options.cap = (a.cap : LoopCap) := rfl
  unfold runSource
  simp only [Report.ofCode, hcap]
  generalize Outcome.ofProgram a.cap code budget = outcome
  refine ⟨?_, ?_, ?_, ?_⟩
  · have hshown : printed code ++ printed "---".toList = code ++ "\n---\n".toList :=
      List.append_assoc _ _ _
    simp only [Arguments.options, decide_eq_true_eq, hshown]
    rfl
  · cases outcome.fault with
    | none => rfl
    | some fault => rfl
  · intro hend
    simp only [Arguments.options, decide_eq_true_eq, hend, Option.map_none, List.append_nil]
  · intro fault hfault hquiet
    simp only [Arguments.options, decide_eq_true_eq, if_neg hquiet, hfault, Option.map_some,
      List.nil_append]
    rfl

/-- The order of arguments does not matter.  A command line with a program that names a file,
and any settings before and after it, is read, and the program of the file, with plain line
ends, is run under the last of the caps; the code is shown if that is asked for anywhere, then
the output, and the status tells whether the run faulted.  Every other command line that asks
for the same things does the same with the same budget. -/
theorem run_in_any_order (a : Arguments) (file? : Text → Option (List UInt8)) (source : Text)
    (hfile : file? (plainPath a.program) = some (Text.utf8Encode source)) (budget : Nat) :
    ∃ exit code, run file? a.words budget = .ok exit ∧
      code = Text.replaceAll ['\r'] ['\n'] (Text.replaceAll ['\r', '\n'] ['\n'] source) ∧
      exit.Leaves a code (Outcome.ofProgram a.cap code budget) ∧
      ∀ b : Arguments, b.AsksAlike a → run file? b.words budget = .ok exit := by
  refine ⟨_, _, run_of_parse a.parse_words hfile budget, Text.unifyLineEnds_eq_replaceAll source,
    runSource_leaves a _ budget, ?_⟩
  intro b hb
  have hfile' : file? (plainPath b.program) = some (Text.utf8Encode source) := by
    rw [hb.file, hfile]
  rw [run_of_parse b.parse_words hfile' budget, hb.options_eq]

/-- The numeral of seven below zero, with zeros in front. -/
def minusSeven : CapNumeral where
  negative := true
  digits := "007".toList
  isDigits := by decide
  length_le := by decide

/-- A command line that asks for three caps, for a log twice, and for the code. -/
def scattered : Arguments where
  before := [.joinedCap minusSeven, .verbose, .cap ⟨false, "9".toList, by decide, by decide⟩]
  program := "loop.txt".toList
  after := [.showCode, .cap minusSeven, .verbose]
  head?_program := by decide

/-- A command line that asks for the same in fewer words. -/
def gathered : Arguments where
  before := [.verbose, .showCode, .joinedCap minusSeven]
  program := "./loop.txt".toList
  after := []
  head?_program := by decide

theorem scattered_runs_like_gathered :
    scattered.words = ["--max-loop=-007".toList, "-v".toList, "--max-loop".toList, "9".toList,
      "loop.txt".toList, "--show-code".toList, "--max-loop".toList, "-007".toList,
      "-v".toList] ∧
    loopFile? (plainPath scattered.program) = some (Text.utf8Encode returningLoop) ∧
    gathered.AsksAlike scattered ∧
    ∃ exit code, run loopFile? scattered.words = .ok exit ∧
      run loopFile? gathered.words = .ok exit ∧
      code = "while a < 2:\n\ta = a + 1\nprint(a)\n".toList ∧
      exit.Leaves scattered code
        (Outcome.ofProgram (-7 : Int) code FrontEnd.command.budget) := by
  have hfile : loopFile? (plainPath scattered.program) =
      some (Text.utf8Encode returningLoop) := rfl
  have halike : gathered.AsksAlike scattered := by
    refine ⟨?_, ?_, rfl, rfl⟩
    · decide
    · decide
  obtain ⟨exit, code, hrun, hcode, hleaves, hothers⟩ :=
    run_in_any_order scattered loopFile? returningLoop hfile FrontEnd.command.budget
  exact ⟨rfl, hfile, halike, exit, code, hrun, hothers gathered halike, hcode, hleaves⟩

end LineScript.CommandLine
