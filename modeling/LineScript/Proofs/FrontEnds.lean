import LineScript.CommandLine.Command
import LineScript.Proofs.LineEnds
import LineScript.Proofs.Outcome
import LineScript.Proofs.ServerCap
import LineScript.Proofs.SharpBudget
import LineScript.Proofs.Utf8

set_option autoImplicit false

/-!
# The ways to run a program agree

A program can be run by itself, as a source that is taken as it is, by a request to the
server, and from a file by the command.  The command alone reads bytes and unifies line
ends, and it alone is given its cap as a numeral.  None of the four leaves the program the
same budget, since they do not have the same calls open around it.

Proved: the command reads its arguments as a program and a cap, in whatever order and
form the cap is given (`CommandLine.parse_of_mem_invocations`), and shows what the program
prints and how it ends (`CommandLine.runSource_shows`); all four ways have one output and
one error, if the least of their budgets is enough (`CommandLine.front_ends_agree`), and a
sum shows that this is needed (`CommandLine.onesProgram_runs_apart`).
-/

namespace LineScript

theorem IntegerError.message_ne_nil (e : IntegerError) : e.message ≠ [] := by
  intro h
  cases e with
  | notNumeral | wrongKind =>
    have hstart := String.toList_eq_nil_iff.mp (List.append_eq_nil_iff.mp h).1
    exact absurd hstart (by decide)
  | tooLong =>
    have hend := String.toList_eq_nil_iff.mp (List.append_eq_nil_iff.mp h).2
    exact absurd hend (by decide)
  | infinite | notNumber => exact absurd (String.toList_eq_nil_iff.mp h) (by decide)

/-- A fault is never reported by an empty text. -/
theorem Fault.message_ne_nil (f : Fault) : f.message ≠ [] := by
  intro h
  cases f with
  | numeralTooLong | notDouble =>
    have hstart := String.toList_eq_nil_iff.mp (List.append_eq_nil_iff.mp h).1
    exact absurd hstart (by decide)
  | notInteger e => exact e.message_ne_nil h
  | _ => exact absurd (String.toList_eq_nil_iff.mp h) (by decide)

namespace CommandLine

/-! ## Arguments -/

/-- The command lines that ask for a program and a cap. -/
def invocations (cap : Int) (program : Text) : List (List Text) :=
  [[program, "--max-loop".toList, Text.ofInt cap],
   ["--max-loop".toList, Text.ofInt cap, program],
   [program, "--max-loop".toList ++ '=' :: Text.ofInt cap],
   ["--max-loop".toList ++ '=' :: Text.ofInt cap, program]]

namespace Word

variable (rest : List Text)

theorem ofTexts_cons {word : Text} {w : Word} (hne : word ≠ "--".toList)
    (hword : ofText word = .ok w) :
    ofTexts (word :: rest) = (ofTexts rest).map (w :: ·) := by
  rw [ofTexts, if_neg hne, hword]
  cases ofTexts rest with
  | ok words => rfl
  | error e => rfl

/-- A word without a minus sign in front is an argument. -/
theorem ofText_argument {word : Text} (h : word.head? ≠ some '-') :
    ofText word = .ok (.argument word) := by
  unfold ofText
  split
  · exact absurd rfl h
  · exact absurd rfl h
  · rfl

theorem ofTexts_argument {word : Text} (h : word.head? ≠ some '-') :
    ofTexts (word :: rest) = (ofTexts rest).map (.argument word :: ·) := by
  have hne : word ≠ "--".toList := by
    rintro rfl
    exact h rfl
  exact ofTexts_cons rest hne (ofText_argument h)

theorem ofTexts_maxLoop :
    ofTexts ("--max-loop".toList :: rest) = (ofTexts rest).map (.long .maxLoop none :: ·) :=
  ofTexts_cons rest (by decide) rfl

theorem ofTexts_maxLoop_eq (value : Text) :
    ofTexts (("--max-loop".toList ++ '=' :: value) :: rest) =
      (ofTexts rest).map (.long .maxLoop (some value) :: ·) := by
  have hcut : Text.cut? ['='] ("--max-loop".toList ++ '=' :: value) =
      some ("--max-loop".toList, value) := Text.cut?_append_cons (by decide) value
  have hlong : ofLong ("--max-loop".toList ++ '=' :: value) =
      .ok (.long .maxLoop (some value)) := by
    rw [ofLong, hcut]
    rfl
  exact ofTexts_cons rest (by simp) hlong

end Word

/-- A cap is read from its numeral. -/
theorem Progress.setCap_ofNat (p : Progress) {n : Nat}
    (h : (Text.ofNat n).length ≤ numeralLimit) :
    p.setCap (Text.ofNat n) = .ok { p with options := { p.options with cap := (n : Int) } } := by
  have hne : Text.ofNat n ≠ "--".toList := by
    intro heq
    have hmem : '-' ∈ Text.ofNat n := heq ▸ List.mem_cons_self
    exact absurd (Text.isDigit_of_mem_ofNat hmem) (by decide)
  rw [setCap, capOf, if_neg hne, Integer.ofText_ofNat h]
  rfl

/-- A cap can be given before the program and after it, and in a word of its own or in one
with its flag. -/
theorem parse_of_mem_invocations {n : Nat} (hn : (Text.ofNat n).length ≤ numeralLimit)
    {program : Text} (hprogram : program.head? ≠ some '-') {argv : List Text}
    (h : argv ∈ invocations n program) :
    parse argv = .ok (.run { cap := (n : Int) } program) := by
  have hnumeral : (Text.ofNat n).head? ≠ some '-' := by
    intro hhead
    exact absurd (Text.isDigit_of_mem_ofNat (List.mem_of_head? hhead)) (by decide)
  have hnil : Word.ofTexts [] = .ok [] := rfl
  have hofInt : Text.ofInt n = Text.ofNat n := rfl
  simp only [invocations, List.mem_cons, List.not_mem_nil, or_false] at h
  -- in each form the words are classified first and then read from left to right
  rcases h with rfl | rfl | rfl | rfl
  all_goals
    simp only [parse, hofInt, Word.ofTexts_argument _ hprogram, Word.ofTexts_argument _ hnumeral,
      Word.ofTexts_maxLoop, Word.ofTexts_maxLoop_eq, hnil, Except.map, Progress.read,
      Progress.argument, Progress.setCap_ofNat _ hn, Progress.finish]

/-! ## What the command shows -/

/-- An exit shows an output and an error: the output, unless it is empty, on lines of its
own, and the error after a few words. -/
structure Exit.Shows (e : Exit) (output : Text) (error : Option Text) : Prop where
  stdout_eq : e.stdout = if output = [] then [] else output ++ ['\n']
  status_eq_zero : e.status = 0 ↔ error = none
  status_eq_one : e.status = 1 ↔ error ≠ none
  stderr_of_none : error = none → e.stderr = []
  stderr_of_some : ∀ message, error = some message →
    e.stderr = "Runtime error: ".toList ++ message ++ ['\n']

/-- Without other flags the command shows what a program prints and how it ends. -/
theorem runSource_shows (cap : LoopCap) (source : Text) (budget : Nat) :
    (runSource { cap := cap } source budget).Shows (Report.ofCode cap source budget).output
      (Report.ofCode cap source budget).error := by
  unfold runSource
  dsimp only
  generalize Report.ofCode cap source budget = report
  obtain ⟨output, error, code⟩ := report
  cases error with
  | none => exact ⟨rfl, by simp, by simp, fun _ => rfl, fun _ h => absurd h (by simp)⟩
  | some message =>
    refine ⟨rfl, by simp, by simp, fun h => absurd h (by simp), ?_⟩
    intro message' h
    obtain rfl := Option.some.inj h
    rfl

theorem run_of_parse {file? : Text → Option (List UInt8)} {argv : List Text}
    {options : Options} {program source : Text} (hparse : parse argv = .ok (.run options program))
    (hfile : file? (plainPath program) = some (Text.utf8Encode source)) (budget : Nat) :
    run file? argv budget = .ok (runSource options source.unifyLineEnds budget) := by
  rw [run, hparse]
  simp only [hfile, Text.utf8Decode_utf8Encode]
  rfl

/-! ## What is reported -/

/-- The data of a request to run a program under a cap. -/
def cappedRequest (cap : Int) (code : Text) : Datum :=
  .object [("code".toList, .scalar (.text code)),
    ("settings".toList, .object [(Server.capKey, .scalar (.num (.int cap)))])]

/-- A request that asks for no more than the ceiling is answered under what it asks for. -/
theorem answer_cappedRequest {cap s : Int} (hzero : 0 ≤ cap) (hs : cap ≤ s) (code : Text)
    (budget : Nat) : ∃ r, Server.Request.ofDatum (cappedRequest cap code) = .ok r ∧
      r.answer s budget = .ofCode cap code budget := by
  refine ⟨⟨code, [(Server.capKey, .scalar (.num (.int cap)))]⟩, rfl, ?_⟩
  have hcap : max 0 (min cap s) = cap := by omega
  rw [Server.Request.answer_eq]
  simp only [Server.Request.wanted, List.lookup_cons_self, Integer.ofDatum, Integer.ofNumber, hcap]

/-- What a front end says of a program that it runs under a cap with a budget: the output, and
the error, if there is one.  The server has no setting of its own, and the command is given
the program in a file. -/
def Reports (code : Text) (cap : Int) (file? : Text → Option (List UInt8)) (program : Text)
    (budget : Nat) (output : Text) (error : Option Text) : FrontEnd → Prop
  | .alone =>
    (Outcome.ofProgram cap code budget).output = output ∧
    (Outcome.ofProgram cap code budget).fault.map Fault.message = error
  | .source => ∀ ε : Type,
    Report.ofSource (.identity : Renderer ε) cap code budget = .ok ⟨output, error, code⟩
  | .request => ∃ s r, Server.ceiling none = .ok s ∧
    Server.Request.ofDatum (cappedRequest cap code) = .ok r ∧
    r.answer s budget = ⟨output, error, code⟩
  | .command => ∀ argv, parse argv = .ok (.run { cap := cap } program) →
    ∃ exit, run file? argv budget = .ok exit ∧ exit.Shows output error

section

variable {code : Text} {cap : Int} {file? : Text → Option (List UInt8)} {program : Text}

/-- Every front end reports how the program runs with the budget. -/
theorem reports_ofProgram (hcode : code.ReturnsEndLines) (hzero : 0 ≤ cap) (hcap : cap ≤ 1000)
    (hfile : file? (plainPath program) = some (Text.utf8Encode code)) (f : FrontEnd)
    (budget : Nat) :
    Reports code cap file? program budget (Outcome.ofProgram cap code budget).output
      ((Outcome.ofProgram cap code budget).fault.map Fault.message) f := by
  cases f with
  | alone => exact ⟨rfl, rfl⟩
  | source => exact fun ε => rfl
  | request =>
    obtain ⟨r, hr, hanswer⟩ := answer_cappedRequest hzero hcap code budget
    exact ⟨1000, r, rfl, hr, hanswer⟩
  | command =>
    intro argv hargv
    refine ⟨_, run_of_parse hargv hfile budget, ?_⟩
    have hshows := runSource_shows cap code.unifyLineEnds budget
    rwa [Report.ofCode, Outcome.ofProgram_unifyLineEnds _ hcode] at hshows

end

/-! ## Agreement -/

/-- The ways to run a program agree, whatever its line ends.  Every front end reports how the
program runs with the budget that it leaves.  If the one that leaves the least runs the program
to its end, all of them report the same output and no error.  In any case the only error is that
of depth, and where less is left, the output is the beginning of what it is where more is left. -/
theorem front_ends_agree (code : Text) (hcode : code.ReturnsEndLines) (cap : Int)
    (hzero : 0 ≤ cap) (hcap : cap ≤ 1000) (file? : Text → Option (List UInt8)) (program : Text)
    (hfile : file? (plainPath program) = some (Text.utf8Encode code)) :
    (program.head? ≠ some '-' → ∀ argv ∈ invocations cap program,
      parse argv = .ok (.run { cap := cap } program)) ∧
    (∀ room : FrontEnd → Nat, ∀ least, (∀ f, room least ≤ room f) →
      (Outcome.ofProgram cap code (room least)).fault = none →
      ∃ output, ∀ f, Reports code cap file? program (room f) output none f) ∧
    ∀ room : FrontEnd → Nat, ∃ (output : FrontEnd → Text) (error : FrontEnd → Option Text),
      (∀ f, Reports code cap file? program (room f) (output f) (error f) f) ∧
      (∀ f, error f = none ∨ error f = some Fault.nestingTooDeep.message) ∧
      (∀ f, error f ≠ some []) ∧
      ∀ f g, room f ≤ room g → output f <+: output g ∧
        (error f = none → error g = none ∧ output f = output g) := by
  have hreports := reports_ofProgram hcode hzero hcap hfile
  refine ⟨?_, ?_, ?_⟩
  · intro hprogram argv hargv
    obtain ⟨n, rfl⟩ := Int.eq_ofNat_of_zero_le hzero
    have hlength : (Text.ofNat n).length ≤ 4 :=
      (Nat.length_toDigits_le_iff (by decide) (by decide)).mpr (by omega)
    have hn : (Text.ofNat n).length ≤ numeralLimit := Nat.le_trans hlength (by decide)
    exact parse_of_mem_invocations hn hprogram hargv
  · intro room least hleast hends
    refine ⟨(Outcome.ofProgram cap code (room least)).output, fun f => ?_⟩
    have hsame := Outcome.ofProgram_of_ends cap code (hleast f) hends
    have hreport := hreports f (room f)
    rwa [hsame, hends] at hreport
  · intro room
    refine ⟨_, _, fun f => hreports f (room f), fun f => ?_, fun f h => ?_, fun f g hle => ?_⟩
    · rcases Outcome.fault_by_depth cap code (room f) with hends | hdeep
      · exact Or.inl (by rw [hends]; rfl)
      · exact Or.inr (by rw [hdeep]; rfl)
    · obtain ⟨fault, -, hfault⟩ := Option.map_eq_some_iff.mp h
      exact Fault.message_ne_nil fault hfault
    · refine ⟨Outcome.output_prefix_of_le cap code hle, fun hnone => ?_⟩
      have hends := Option.map_eq_none_iff.mp hnone
      rw [Outcome.ofProgram_of_ends cap code hle hends]
      exact ⟨hnone, rfl⟩

/-- A loop whose lines end with a carriage return and a line feed. -/
def returningLoop : Text := "while a < 2:\r\n\ta = a + 1\r\nprint(a)\r\n".toList

/-- The only file is the loop. -/
def loopFile? (path : Text) : Option (List UInt8) :=
  if path = "loop.txt".toList then some (Text.utf8Encode returningLoop) else none

theorem returningLoop_runs_alike :
    returningLoop.ReturnsEndLines ∧
    loopFile? (plainPath "./loop.txt".toList) = some (Text.utf8Encode returningLoop) ∧
    (∀ f, FrontEnd.command.budget ≤ FrontEnd.budget f) ∧
    (Outcome.ofProgram (7 : Int) returningLoop FrontEnd.command.budget).fault = none ∧
    ∃ output, (∀ f : FrontEnd,
        Reports returningLoop 7 loopFile? "./loop.txt".toList f.budget output none f) ∧
      ∃ exit, run loopFile? ["--max-loop=7".toList, "./loop.txt".toList] = .ok exit ∧
        exit.Shows output none := by
  have hcode : returningLoop.ReturnsEndLines := by decide
  have hfile : loopFile? (plainPath "./loop.txt".toList) =
      some (Text.utf8Encode returningLoop) := rfl
  have hleast : ∀ f, FrontEnd.command.budget ≤ FrontEnd.budget f := by
    intro f
    cases f <;> decide
  have hends : (Outcome.ofProgram (7 : Int) returningLoop FrontEnd.command.budget).fault = none :=
    by decide +kernel
  obtain ⟨hparse, hagree, -⟩ :=
    front_ends_agree returningLoop hcode 7 (by decide) (by decide) loopFile?
      "./loop.txt".toList hfile
  obtain ⟨output, hreports⟩ := hagree FrontEnd.budget .command hleast hends
  have hargv : ["--max-loop=7".toList, "./loop.txt".toList] ∈
      invocations 7 "./loop.txt".toList := by decide
  exact ⟨hcode, hfile, hleast, hends, output, hreports,
    hreports .command _ (hparse (by decide) _ hargv)⟩

/-- The only file is the program that prints the largest sum of ones. -/
def onesFile? (path : Text) : Option (List UInt8) :=
  if path = "ones.txt".toList then some (Text.utf8Encode (onesProgram 991)) else none

/-- The largest sum of ones that can be printed by a program that is run by itself is too deep
for every other way to run it. -/
theorem onesProgram_runs_apart :
    (onesProgram 991).ReturnsEndLines ∧
    onesFile? (plainPath "ones.txt".toList) = some (Text.utf8Encode (onesProgram 991)) ∧
    Reports (onesProgram 991) 1000 onesFile? "ones.txt".toList FrontEnd.alone.budget
      "992".toList none .alone ∧
    (∀ f : FrontEnd, f ≠ .alone → Reports (onesProgram 991) 1000 onesFile? "ones.txt".toList
      f.budget [] (some "maximum recursion depth exceeded".toList) f) ∧
    ¬ ∃ output error, ∀ f : FrontEnd,
      Reports (onesProgram 991) 1000 onesFile? "ones.txt".toList f.budget output error f := by
  have hcode : (onesProgram 991).ReturnsEndLines :=
    Text.returnsEndLines_of_not_mem (return_not_mem_onesProgram 991)
  have hfile : onesFile? (plainPath "ones.txt".toList) =
      some (Text.utf8Encode (onesProgram 991)) := if_pos (by decide)
  have hsafe : 991 < Number.safeLimit := by decide
  have hreports := fun f : FrontEnd =>
    reports_ofProgram hcode (by decide : (0 : Int) ≤ 1000) (by decide) hfile f f.budget
  have halone : Reports (onesProgram 991) 1000 onesFile? "ones.txt".toList FrontEnd.alone.budget
      "992".toList none .alone := by
    have hreport := hreports .alone
    rw [Outcome.ofProgram_onesProgram 1000 hsafe, if_pos (by decide)] at hreport
    exact hreport
  have hothers : ∀ f : FrontEnd, f ≠ .alone → Reports (onesProgram 991) 1000 onesFile?
      "ones.txt".toList f.budget [] (some "maximum recursion depth exceeded".toList) f := by
    intro f hf
    have hdeep : ¬ 991 < f.budget := by
      cases f with
      | alone => exact absurd rfl hf
      | source | request | command => decide
    have hreport := hreports f
    rw [Outcome.ofProgram_onesProgram 1000 hsafe, if_neg hdeep] at hreport
    exact hreport
  refine ⟨hcode, hfile, halone, hothers, ?_⟩
  rintro ⟨output, error, hall⟩
  have hnone : none = error := halone.2.symm.trans (hall .alone).2
  have hsome := (hothers .source (by decide) Empty).symm.trans (hall .source Empty)
  rw [← hnone] at hsome
  exact absurd (congrArg Report.error (Except.ok.inj hsome)) (by simp)

end CommandLine

end LineScript
