import LineScript.Proofs.AllDoubles
import LineScript.Proofs.Header
import LineScript.Proofs.Layout
import LineScript.Proofs.Simultaneous
import LineScript.Proofs.Verbatim
import LineScript.Proofs.WholeNumber

set_option autoImplicit false

/-!
# Counting

The program that binds a name to zero, and then prints it and adds one to it as long as it is
below a number.  The name may be any name, also one that opens a statement elsewhere, since
what a line asks for is read off its signs and its first word only.

Proved: the program is read as the tree that one expects (`Count.ofLines_lines`), each
run of its loop prints the next numeral and binds the next number (`Count.body_apply`), and so
it prints all the numerals up to the number or up to the cap on loops, whichever is less
(`Count.counts_up`).
-/

namespace LineScript

/-! ## Lines -/

namespace Line

/-- The line counts, it has the indent, and it asks for the statement. -/
structure Asks (line : Text) (width : Nat) (st : Statement) : Prop where
  counts : isFiller line = false
  indent_eq : indent line = width
  statement_eq : Statement.ofLine (Text.strip line) = st

/-- A text that starts like a name and does not end with a blank is read as it is behind every
indent. -/
theorem asks_append {lead body : Text} {e : Char} {st : Statement}
    (hlead : lead.all isIndentation = true)
    (hfirst : (body.head?.any fun d => d.isAlphanum || d = '_') = true)
    (hlast : body.getLast? = some e) (he : Text.isBlank e = false)
    (hst : Statement.ofLine body = st) : Asks (lead ++ body) (indent lead) st := by
  obtain ⟨d, hhead, hname⟩ := (Option.any_eq_true _ _).mp hfirst
  obtain ⟨ds, rfl⟩ := List.head?_eq_some_iff.mp hhead
  have hbounds := Text.bounds_of_nameCharacter hname
  have hblank : Text.isBlank d = false := Text.isBlank_eq_false (by omega)
  have hcomment : d ≠ '#' := by
    rintro rfl
    exact absurd hbounds (by decide)
  have hindentation : isIndentation d = false := by
    rw [Bool.eq_false_iff]
    intro h
    have hall : [d].all isIndentation = true := by simpa using h
    exact absurd (isBlank_of_isIndentation hall d List.mem_cons_self) (by simp [hblank])
  have hblanks := isBlank_of_isIndentation hlead
  have hstrip : Text.strip (d :: ds) = d :: ds :=
    Text.strip_eq_self (fun _ h => Option.some.inj h ▸ hblank)
      fun _ h => Option.some.inj (hlast.symm.trans h) ▸ he
  refine ⟨?_, indent_append hlead hindentation, ?_⟩
  · rw [isFiller_blanks_append hblanks, isFiller, List.dropWhile_cons_of_neg (by simp [hblank])]
    exact decide_eq_false hcomment
  · rw [Text.strip_blanks_append hblanks, hstrip, hst]

/-- Such a line is in the block of a header that is less indented. -/
theorem Asks.isInside_eq {line : Text} {width : Nat} {st : Statement} (h : Asks line width st)
    (header : Int) : isInside header line = decide (header < width) := by
  rw [isInside, h.counts, h.indent_eq, Bool.false_or]

end Line

namespace Tree

section

variable {line : Text} {width : Nat} {st : Statement} (h : Line.Asks line width st)
  (rest : List Text)
include h

/-- A line at the level is the first statement of the tree. -/
theorem ofLines_of_asks {level : Int} (hlevel : width = level) :
    ofLines level (line :: rest) =
      first st (ofLines level rest) (ofBlock (Lines.block level rest))
        (ofLines level (Lines.afterBlock level rest)) := by
  have hindent : (Line.indent line : Int) = level := h.indent_eq ▸ hlevel
  rw [ofLines_of_level rest h.counts hindent, h.statement_eq, hindent]

/-- The first line of a block gives the block its level. -/
theorem ofBlock_of_asks : ofBlock (line :: rest) = ofLines width (line :: rest) := by
  have hlevel : Lines.level? (line :: rest) = some width := by
    rw [Lines.level?, List.dropWhile_cons_of_neg (by simp [h.counts]), List.head?_cons,
      Option.map_some, h.indent_eq]
  rw [ofBlock, hlevel]

end

/-- A block of two lines between two lines at the outermost indent. -/
theorem ofLines_of_asks_block {before header first second after condition : Text} {width : Nat}
    {a a' : Assignment} {argument argument' : Option Text} {kind : BlockKind}
    (hbefore : Line.Asks before 0 (.assign a))
    (hheader : Line.Asks header 0 (.block kind condition))
    (hfirst : Line.Asks first width (.print argument))
    (hsecond : Line.Asks second width (.assign a'))
    (hafter : Line.Asks after 0 (.print argument')) (hwidth : 0 < width) :
    ofLines 0 [before, header, first, second, after] =
      .assign a (.block kind condition (.print argument (.assign a' .done))
        (.print argument' .done)) := by
  have hblock : Lines.block 0 [first, second, after] = [first, second] := by
    simp [Lines.block, hfirst.isInside_eq, hsecond.isInside_eq, hafter.isInside_eq, hwidth]
  have hrest : Lines.afterBlock 0 [first, second, after] = [after] := by
    simp [Lines.afterBlock, hfirst.isInside_eq, hsecond.isInside_eq, hafter.isInside_eq, hwidth]
  have hbody : ofBlock [first, second] = .print argument (.assign a' .done) := by
    rw [ofBlock_of_asks hfirst, ofLines_of_asks hfirst _ rfl, Tree.first,
      ofLines_of_asks hsecond _ rfl, Tree.first, ofLines.eq_1]
  have houtermost : ((0 : Nat) : Int) = 0 := rfl
  rw [ofLines_of_asks hbefore _ houtermost, Tree.first, ofLines_of_asks hheader _ houtermost,
    Tree.first, hblock, hbody, hrest, ofLines_of_asks hafter _ houtermost, Tree.first,
    ofLines.eq_1]

end Tree

/-! ## Statements -/

namespace Statement

/-- One equals sign between texts without other signs makes an assignment to one name. -/
theorem ofLine_assignment {target source : Text} (htarget : Comparison.IsSide target)
    (hsource : Comparison.IsSide source) (hcomma : ',' ∉ target) (hcomma' : ',' ∉ source) :
    ofLine (target ++ '=' :: source) = .assign ⟨[Text.strip target], [source]⟩ := by
  have hequals : (target ++ '=' :: source).count '=' = 1 := by
    rw [List.count_append, List.count_cons_self, htarget.count (by decide),
      hsource.count (by decide)]
  have hbang : (target ++ '=' :: source).count '!' = 0 := by
    rw [List.count_append, List.count_cons_of_ne (by decide), htarget.count (by decide),
      hsource.count (by decide)]
  have hequal : Text.occurs "==".toList (target ++ '=' :: source) = false :=
    Text.occurs_eq_false_of_count (c := '=') (by rw [hequals]; decide)
  have hunequal : Text.occurs "!=".toList (target ++ '=' :: source) = false :=
    Text.occurs_eq_false_of_count (c := '!') (by rw [hbang]; decide)
  have hassign : isAssignment (target ++ '=' :: source) = true := by
    rw [isAssignment, hequal, hunequal]
    simp
  have hread := @Assignment.ofLine_written [target] [source]
    (by simpa using ⟨hcomma, htarget '=' (by decide)⟩) (by simpa using hcomma') (by simp) (by simp)
    (Or.inr rfl)
  rw [ofLine, if_pos hassign]
  simpa [Assignment.written] using hread

/-- A text without an equals sign is printed. -/
theorem ofLine_print {t : Text} (hbreak : '\n' ∉ t) (hequals : '=' ∉ t) :
    ofLine (printOpening ++ (t ++ [')'])) = .print (some t) := by
  have hopening : '=' ∉ printOpening := by decide
  have hassign : isAssignment (printOpening ++ (t ++ [')'])) = false := by
    simp [isAssignment, hopening, hequals]
  rw [ofLine, hassign, isPrefixOf_printOpening, printArgument?_written hbreak]
  rfl

/-- A loop that compares two sides with `<` has them as its condition. -/
theorem ofLine_loop {l r : Text} (hl : Comparison.IsSide l) (hr : Comparison.IsSide r) :
    ofLine (BlockKind.repeated.keyword ++ (l ++ Comparison.less.symbol ++ r ++ [':'])) =
      .block .repeated (Text.strip (l ++ Comparison.less.symbol ++ r)) := by
  have hleft : Comparison.IsSide (BlockKind.repeated.keyword ++ l) :=
    Comparison.IsSide.append (by decide) hl
  have hright : Comparison.IsSide (r ++ [':']) := hr.append (by decide)
  have hassign := Comparison.isAssignment_written hleft hright .less
  have hline : BlockKind.repeated.keyword ++ (l ++ Comparison.less.symbol ++ r ++ [':']) =
      BlockKind.repeated.keyword ++ l ++ Comparison.less.symbol ++ (r ++ [':']) := by
    simp only [List.append_assoc]
  rw [← hline] at hassign
  have hprint : printOpening.isPrefixOf (BlockKind.repeated.keyword ++
      (l ++ Comparison.less.symbol ++ r ++ [':'])) = false := rfl
  have honce : BlockKind.once.keyword.isPrefixOf (BlockKind.repeated.keyword ++
      (l ++ Comparison.less.symbol ++ r ++ [':'])) = false := rfl
  have hkeyword : BlockKind.repeated.keyword.isPrefixOf (BlockKind.repeated.keyword ++
      (l ++ Comparison.less.symbol ++ r ++ [':'])) = true := rfl
  rw [ofLine, hassign, hprint, honce, hkeyword, conditionAfter_colon]
  rfl

end Statement

/-- A line that prints a text without an equals sign asks for that behind every indent. -/
theorem Line.asks_print {lead t : Text} (hlead : lead.all isIndentation = true)
    (hbreak : '\n' ∉ t) (hequals : '=' ∉ t) :
    Asks (lead ++ (printOpening ++ (t ++ [')']))) (indent lead) (.print (some t)) := by
  refine asks_append hlead rfl ?_ (show Text.isBlank ')' = false by decide)
    (Statement.ofLine_print hbreak hequals)
  rw [← List.append_assoc, List.getLast?_concat]

/-! ## Names and numbers -/

/-- A name holds no other characters than those of names. -/
theorem Expression.not_mem_of_isName {x : Text} (h : isName x = true) {c : Char}
    (hc : (c.isAlphanum || c = '_') = false) : c ∉ x := by
  intro hmem
  exact absurd (nameCharacter_of_mem h hmem) (by simp [hc])

theorem Expression.isSide_of_isName {x : Text} (h : isName x = true) : Comparison.IsSide x := by
  have hsigns : Comparison.signs.all (fun c => !(c.isAlphanum || c = '_')) = true := by decide
  intro c hc
  exact not_mem_of_isName h (by simpa using List.all_eq_true.mp hsigns c hc)

theorem Text.IsDigits.isSide {digits : Text} (h : digits.IsDigits) : Comparison.IsSide digits := by
  have hsigns : Comparison.signs.all (fun c => !c.isDigit) = true := by decide
  intro c hc hmem
  have hsign : c.isDigit = false := by simpa using List.all_eq_true.mp hsigns c hc
  exact absurd (List.all_eq_true.mp h.all_digits c hmem) (by simp [hsign])

/-- Digits that denote a safe number have its place, however many zeros they start with. -/
theorem Expression.eval_digits {digits : Text} (h : digits.IsDigits)
    (hsafe : Text.value digits ≤ Number.safeLimit) (env : Environment) {budget : Nat}
    (hbudget : 0 < budget) :
    ∃ x : Number, eval env budget digits = .ok (.num x) ∧
      x.place? = (Number.int (Text.value digits)).place? := by
  obtain ⟨budget, rfl⟩ := Nat.exists_eq_succ_of_ne_zero (Nat.ne_of_gt hbudget)
  have htext : (Decimal.Literal.ofWhole false digits).text = digits := List.append_nil digits
  have heval := eval_ofWhole env budget false h
  rw [htext] at heval
  refine ⟨_, heval, ?_⟩
  -- long digits are a double at once, but one that stands where the integer does
  rcases Nat.lt_or_ge 20 digits.length with hlong | hshort
  · rw [Number.ofLiteral_long false digits hlong]
    have hmatches : (Number.int (Text.value digits)).Matches
        (.ofDecimal ⟨false, Text.value digits, 0⟩) :=
      ⟨hsafe, Number.alike_ofDecimal false (Text.value digits)⟩
    exact hmatches.place?_eq.symm
  · rw [Number.ofLiteral_short false digits hshort, Number.normalize_of_safe]
    · rfl
    · exact hsafe

/-- Integers are compared as integers. -/
theorem Number.less_int (m n : Int) : (int m).less (int n) = decide (m < n) := by
  have hpos : (0 : Int) < Double.unitsPerOne := Int.ofNat_lt.mpr Double.unitsPerOne_pos
  have hscaled : m * Double.unitsPerOne < n * Double.unitsPerOne ↔ m < n :=
    Int.mul_lt_mul_right hpos
  exact decide_eq_decide.mpr hscaled

/-- A safe natural number is printed as its numeral. -/
theorem Value.written_of_safe {n : Nat} (h : n ≤ Number.safeLimit) :
    (Value.int n).written = .ok (Text.ofNat n) := by
  have hlimit : Number.safeLimit < Nat.pow 10 numeralLimit := by decide +kernel
  rw [Value.int, written, Number.written, if_neg (by rw [Int.natAbs_natCast]; omega)]
  rfl

/-- An assignment to one name binds it to the value of its source. -/
theorem Run.assign_one {budget : Nat} {x source : Text} {s : State} {v : Value}
    (h : Expression.eval s.env budget source = .ok v) :
    assign budget ⟨[x], [source]⟩ s = .ok () { s with env := s.env.set x v } := by
  rw [assign_apply, List.mapM_cons, List.mapM_nil, h]
  rfl

/-! ## The program -/

/-- A name to count with, and the digits of a safe number to count to. -/
structure Count where
  name : Text
  digits : Text
  isName : Expression.isName name = true
  isDigits : digits.IsDigits
  safe : Text.value digits ≤ Number.safeLimit

namespace Count

/-- The lines of the program that counts. -/
def lines (c : Count) : List Text :=
  [c.name ++ " = 0".toList,
   "while ".toList ++ c.name ++ " < ".toList ++ c.digits ++ ":".toList,
   "    print(".toList ++ c.name ++ ")".toList,
   "    ".toList ++ c.name ++ " = ".toList ++ c.name ++ " + 1".toList,
   "print(".toList ++ c.name ++ ")".toList]

/-- The program that counts. -/
def program (c : Count) : Text := ['\n'].intercalate c.lines

/-- The number to count to. -/
def limit (c : Count) : Nat := Text.value c.digits

/-- The condition of the loop. -/
def condition (c : Count) : Text :=
  Text.strip (c.name ++ [' '] ++ Comparison.less.symbol ++ (' ' :: c.digits))

/-- What the name is bound to in each run of the loop. -/
def successor (c : Count) : Text := ' ' :: (c.name ++ " + 1".toList)

/-- The block of the loop. -/
def body (c : Count) : Tree :=
  .print (some c.name) (.assign ⟨[c.name], [c.successor]⟩ .done)

/-- The statements of the program. -/
def tree (c : Count) : Tree :=
  .assign ⟨[c.name], [" 0".toList]⟩
    (.block .repeated c.condition c.body (.print (some c.name) .done))

variable (c : Count)

theorem exists_name_eq_cons : ∃ d ds, c.name = d :: ds ∧ (d.isAlphanum || d = '_') = true :=
  (Atom.name c.name c.isName).exists_text_eq_cons

theorem isSide_name : Comparison.IsSide c.name := Expression.isSide_of_isName c.isName

theorem isSide_name_space : Comparison.IsSide (c.name ++ [' ']) :=
  c.isSide_name.append (by decide)

theorem isSide_space_digits : Comparison.IsSide (' ' :: c.digits) :=
  Comparison.IsSide.append (show Comparison.IsSide [' '] by decide) c.isDigits.isSide

theorem strip_name : Text.strip c.name = c.name := (Atom.name c.name c.isName).strip_text

theorem head?_name_append (t : Text) :
    ((c.name ++ t).head?.any fun d => d.isAlphanum || d = '_') = true := by
  obtain ⟨d, ds, hname, hd⟩ := c.exists_name_eq_cons
  rw [hname, List.cons_append, List.head?_cons, Option.any_some, hd]

theorem strip_name_space : Text.strip (c.name ++ [' ']) = c.name := by
  rw [Text.strip_append_blanks _ (List.all_eq_true.mp rfl), c.strip_name]

section

variable {lead : Text} (hlead : lead.all Line.isIndentation = true)
include hlead

theorem asks_assign {source : Text} {e : Char} (hside : Comparison.IsSide source)
    (hcomma : ',' ∉ source) (hlast : source.getLast? = some e) (he : Text.isBlank e = false) :
    Line.Asks (lead ++ (c.name ++ [' '] ++ '=' :: source)) (Line.indent lead)
      (.assign ⟨[c.name], [source]⟩) := by
  have hst := Statement.ofLine_assignment c.isSide_name_space hside
    (by simp [Expression.not_mem_of_isName c.isName]) hcomma
  rw [c.strip_name_space] at hst
  refine Line.asks_append hlead ?_ ?_ he hst
  · rw [List.append_assoc]
    exact c.head?_name_append _
  · simp [List.getLast?_append, List.getLast?_cons, hlast]

theorem asks_print :
    Line.Asks (lead ++ (printOpening ++ (c.name ++ [')']))) (Line.indent lead)
      (.print (some c.name)) :=
  Line.asks_print hlead (Expression.not_mem_of_isName c.isName (by decide))
    (c.isSide_name '=' (by decide))

end

theorem asks_loop :
    Line.Asks (BlockKind.repeated.keyword ++
      (c.name ++ [' '] ++ Comparison.less.symbol ++ (' ' :: c.digits) ++ [':'])) 0
      (.block .repeated c.condition) := by
  have hst := Statement.ofLine_loop c.isSide_name_space c.isSide_space_digits
  have hlast : (BlockKind.repeated.keyword ++ (c.name ++ [' '] ++ Comparison.less.symbol ++
      (' ' :: c.digits) ++ [':'])).getLast? = some ':' := by
    rw [← List.append_assoc, List.getLast?_concat]
  exact @Line.asks_append [] _ ':' _ rfl rfl hlast (by decide) hst

theorem isSide_successor : Comparison.IsSide c.successor :=
  Comparison.IsSide.append (show Comparison.IsSide [' '] by decide)
    (c.isSide_name.append (by decide))

/-- The program is read as its statements. -/
theorem ofLines_lines : Tree.ofLines 0 c.lines = c.tree := by
  have hzero : Line.Asks (c.name ++ " = 0".toList) 0 (.assign ⟨[c.name], [" 0".toList]⟩) := by
    have hline := @asks_assign c [] rfl " 0".toList '0' (by decide) (by decide) rfl (by decide)
    rwa [List.append_assoc] at hline
  have hloop : Line.Asks ("while ".toList ++ c.name ++ " < ".toList ++ c.digits ++ ":".toList) 0
      (.block .repeated c.condition) := by
    have hline := c.asks_loop
    simp only [List.append_assoc] at hline ⊢
    exact hline
  have hprint : Line.Asks ("    print(".toList ++ c.name ++ ")".toList) 4
      (.print (some c.name)) := by
    have hline := @asks_print c "    ".toList rfl
    rwa [← List.append_assoc, ← List.append_assoc] at hline
  have hstep : Line.Asks ("    ".toList ++ c.name ++ " = ".toList ++ c.name ++ " + 1".toList) 4
      (.assign ⟨[c.name], [c.successor]⟩) := by
    have hcomma : ',' ∉ c.successor := by
      simp [successor, Expression.not_mem_of_isName c.isName]
    have hend : c.successor.getLast? = some '1' := by
      simp [successor, List.getLast?_cons, List.getLast?_append]
    have hline := @asks_assign c "    ".toList rfl c.successor '1' c.isSide_successor hcomma hend
      (by decide)
    simp only [successor, List.append_assoc] at hline ⊢
    exact hline
  have hlast : Line.Asks ("print(".toList ++ c.name ++ ")".toList) 0 (.print (some c.name)) := by
    have hline := @asks_print c [] rfl
    rwa [← List.append_assoc] at hline
  exact Tree.ofLines_of_asks_block hzero hloop hprint hstep hlast (by decide)

/-! ## Running -/

/-- The state in which the name is bound to a number and the first so many numerals are
printed. -/
def counted (i printed : Nat) : State where
  env := ⟨[(c.name, .int i)]⟩
  output := ((List.range printed).map Text.ofNat).toArray

theorem read_counted (i printed : Nat) : (c.counted i printed).env.read c.name = .int i := by
  simp [counted, Environment.read, Environment.get?]

theorem set_counted (i j printed : Nat) :
    (c.counted i printed).env.set c.name (.int j) = (c.counted j printed).env := by
  simp [counted, Environment.set, Environment.insert]

/-- What the name is bound to is a sum, and it is exact. -/
theorem exists_sum : ∃ f : Formula, f.chain.text = c.successor ∧ f.Grouped ∧ f.height = 1 ∧
    ∀ i printed : Nat, i + 1 ≤ Number.safeLimit →
      f.Exact (c.counted i printed).env (i + 1) := by
  refine ⟨.node .add (.leaf ⟨[' '], .name c.name c.isName, [' '], rfl, rfl⟩)
    (.leaf (spacedWhole [' '] "1".toList [] rfl (by decide) rfl)), ?_, ?_, rfl, ?_⟩
  · have htext : [' '] ++ c.name ++ [' '] ++ '+' :: " 1".toList = c.successor := by
      rw [List.append_assoc, List.append_assoc]
      rfl
    exact htext
  · simp [Formula.Grouped, Formula.operators]
  · intro i printed hi
    exact .add (.leaf (c.read_counted i printed)) (.leaf rfl) (by omega)

section

variable {budget : Nat} (hbudget : 1 < budget)
include hbudget

theorem zero_apply :
    Run.assign budget ⟨[c.name], [" 0".toList]⟩ {} = .ok () (c.counted 0 0) := by
  have hzero : Expression.eval Environment.empty budget " 0".toList = .ok (.int 0) := by
    obtain ⟨b, rfl⟩ : ∃ b, budget = b + 1 := ⟨budget - 1, by omega⟩
    rfl
  exact Run.assign_one hzero

/-- The loop goes on as long as the number is below the limit. -/
theorem test_apply (i printed : Nat) :
    Run.holds budget c.condition (c.counted i printed) =
      .ok (decide (i < c.limit)) (c.counted i printed) := by
  have hname := Expression.eval_name c.isName c.strip_name_space (c.counted i printed).env
    (show 0 < budget by omega)
  obtain ⟨x, hdigits, hplace⟩ := Expression.eval_digits c.isDigits c.safe
    (c.counted i printed).env (show 0 < budget by omega)
  have hspaced : Expression.eval (c.counted i printed).env budget (' ' :: c.digits) =
      .ok (.num x) := by
    rw [← hdigits]
    exact Expression.eval_congr_strip _ _
      (@Text.strip_blanks_append [' '] (List.all_eq_true.mp rfl) c.digits)
  have hless : (Number.int i).less x = decide (i < c.limit) :=
    calc (Number.int i).less x
        = (Number.int i).less (.int c.limit) := Number.compare_congr _ rfl hplace
      _ = decide ((i : Int) < c.limit) := Number.less_int i c.limit
      _ = decide (i < c.limit) := decide_eq_decide.mpr Int.ofNat_lt
  have hcondition : Condition.eval (c.counted i printed).env budget c.condition =
      .ok (decide (i < c.limit)) := by
    rw [condition, Condition.eval, Text.strip_strip, ← Condition.eval,
      Condition.eval_written c.isSide_name_space c.isSide_space_digits, Comparison.between, hname,
      hspaced, c.read_counted, ← hless]
    rfl
  rw [Run.holds_apply, hcondition]
  rfl

/-- Printing the name adds the next numeral to the output. -/
theorem print_apply {i : Nat} (hi : i ≤ Number.safeLimit) :
    Run.print budget (some c.name) (c.counted i i) = .ok () (c.counted i (i + 1)) := by
  have hname := Expression.eval_name c.isName c.strip_name (c.counted i i).env
    (show 0 < budget by omega)
  have hsome : c.name ≠ [] := by
    obtain ⟨d, ds, hcons, -⟩ := c.exists_name_eq_cons
    exact hcons ▸ List.cons_ne_nil d ds
  have hentry : Run.entryOf (c.counted i i).env budget c.name = .ok (Text.ofNat i) := by
    rw [Run.entryOf, c.strip_name, if_neg hsome, hname, c.read_counted]
    simp only [bind, Except.bind, Value.written_of_safe hi]
  rw [Run.print_apply, hentry]
  simp [Run.proceed, counted, List.range_succ]

/-- The name is bound to the next number. -/
theorem step_apply {i : Nat} (hi : i + 1 ≤ Number.safeLimit) (printed : Nat) :
    Run.assign budget ⟨[c.name], [c.successor]⟩ (c.counted i printed) =
      .ok () (c.counted (i + 1) printed) := by
  obtain ⟨f, htext, hgrouped, hheight, hexact⟩ := c.exists_sum
  have hvalue : Expression.eval (c.counted i printed).env budget c.successor =
      .ok (.int (i + 1 : Nat)) := by
    rw [← htext, hgrouped.eval_text _ (by omega), (hexact i printed hi).value_eq]
    rfl
  rw [Run.assign_one hvalue, c.set_counted]
  rfl

end

/-! ## The loop -/

/-- One run of the block prints a number and goes on to the next. -/
theorem body_apply (cap : Int) {i : Nat} (hi : i < c.limit) :
    Tree.nested nestingLimit (fun left => c.body.run cap left) (c.counted i i) =
      .ok () (c.counted (i + 1) (i + 1)) := by
  have hsafe : c.limit ≤ Number.safeLimit := c.safe
  have hbudget : 1 < nestingLimit - Run.blockCost := by decide
  rw [Tree.nested, if_neg (by decide), body, Tree.run, Run.bind_apply,
    c.print_apply hbudget (by omega)]
  simp only [Tree.run, Run.bind_apply]
  rw [c.step_apply hbudget (by omega)]
  rfl

/-- A loop that has come to a number goes on to the limit, or for as many runs as are left. -/
theorem whileUpTo_counted (cap : Int) {i : Nat} (hi : i ≤ c.limit) (left : Nat) :
    Run.whileUpTo (Run.holds nestingLimit c.condition)
        (Tree.nested nestingLimit fun rest => c.body.run cap rest) left (c.counted i i) =
      .ok () (c.counted (min c.limit (i + left)) (min c.limit (i + left))) := by
  -- on the runs that are left, for every number that the loop can have come to
  induction left generalizing i with
  | zero =>
    rw [Nat.add_zero, Nat.min_eq_right hi]
    rfl
  | succ left ih =>
    have htest := c.test_apply (show 1 < nestingLimit by decide) i i
    rcases Nat.lt_or_eq_of_le hi with hlt | rfl
    · rw [decide_eq_true hlt] at htest
      rw [Run.whileUpTo_of_true htest (c.body_apply cap hlt), ih hlt,
        Nat.succ_add_eq_add_succ]
    · rw [decide_eq_false (Nat.lt_irrefl _)] at htest
      rw [Run.whileUpTo_of_false htest, Nat.min_eq_left (Nat.le_add_right _ _)]

/-- The statements of the program leave the name bound to the last number, with all the
numerals up to it printed. -/
theorem tree_apply (cap : Int) :
    c.tree.run cap nestingLimit {} =
      .ok () (c.counted (min c.limit cap.toNat) (min c.limit cap.toNat + 1)) := by
  have hbudget : 1 < nestingLimit := by decide
  have hsafe : c.limit ≤ Number.safeLimit := c.safe
  have hloop := c.whileUpTo_counted cap (Nat.zero_le _) cap.toNat
  rw [Nat.zero_add] at hloop
  rw [tree, Tree.run, Run.bind_apply, c.zero_apply hbudget]
  simp only [Tree.run, Run.bind_apply, Tree.perform]
  rw [hloop]
  simp only
  rw [c.print_apply hbudget (by omega)]
  rfl

theorem ofText_program : (Lines.ofText c.program).toList = c.lines := by
  have hname : '\n' ∉ c.name := Expression.not_mem_of_isName c.isName (by decide)
  have hdigits : '\n' ∉ c.digits := by
    intro hmem
    exact absurd (List.all_eq_true.mp c.isDigits.all_digits _ hmem) (by decide)
  have honeLine : ∀ t ∈ c.lines, '\n' ∉ t := by
    simp only [lines, List.forall_mem_cons, List.mem_append, hname, hdigits, or_false]
    decide
  rw [Lines.ofText, program, List.splitOn_intercalate '\n' honeLine (List.cons_ne_nil _ _)]

/-- The program prints the numerals from zero up to its number, or up to the cap on loops if
that is less, and it ends without a fault.  The number may be written with zeros in front or
without. -/
theorem counts_up (c : Count) (m : Int) :
    ∃ k : Nat, (k : Int) = min (c.limit : Int) (max 0 m) ∧
      Outcome.ofProgram m c.program =
        ⟨['\n'].intercalate ((List.range (k + 1)).map Text.ofNat), none⟩ := by
  refine ⟨min c.limit m.toNat, by omega, ?_⟩
  have hending : (Cursor.initial (.ofText c.program)).ending m (.ofText c.program) =
      (c.counted (min c.limit m.toNat) (min c.limit m.toNat + 1), none) := by
    have htree := Lines.endingFrom_eq m nestingLimit (.ofText c.program) {}
    rw [c.ofText_program, c.ofLines_lines, Run.ending_of_ok (c.tree_apply m)] at htree
    exact htree
  rw [Cursor.ofProgram_eq, hending]
  rfl

/-- Counting up to three with the name that also opens the loop. -/
def upToThree : Count where
  name := "while".toList
  digits := Text.ofNat 3
  isName := rfl
  isDigits := by decide
  safe := by decide

theorem upToThree_counts :
    upToThree.limit = 3 ∧
    Outcome.ofProgram (-1 : Int) upToThree.program = ⟨"0".toList, none⟩ ∧
    Outcome.ofProgram (2 : Int) upToThree.program = ⟨"0\n1\n2".toList, none⟩ ∧
    Outcome.ofProgram (1000 : Int) upToThree.program = ⟨"0\n1\n2\n3".toList, none⟩ := by
  have hlimit : upToThree.limit = 3 := rfl
  obtain ⟨k, hk, hnegative⟩ := counts_up upToThree (-1)
  obtain rfl : k = 0 := by omega
  obtain ⟨k, hk, hcapped⟩ := counts_up upToThree 2
  obtain rfl : k = 2 := by omega
  obtain ⟨k, hk, hall⟩ := counts_up upToThree 1000
  obtain rfl : k = 3 := by omega
  exact ⟨hlimit, hnegative, hcapped, hall⟩

end Count

end LineScript
