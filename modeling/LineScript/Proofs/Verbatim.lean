import LineScript.Proofs.PrintCall
import LineScript.Proofs.Reach

set_option autoImplicit false

/-!
# Printing quoted text

A line that prints a text between quotes is stripped, tried as a comment and as an
assignment, searched for its parentheses, stripped again and unquoted, before an operator is
looked for.  None of this looks into the text, except for the question whether the line is an
assignment: that one is asked of the whole line, quotes or not.

Proved: the line is an assignment exactly if the text makes it one
(`Quotation.isAssignment_line`), and a program of such lines prints the texts as they are, in
order, up to the first that makes its line an assignment (`Quotation.printed_verbatim`).
-/

namespace LineScript

namespace Text

/-! ## Pieces of a text -/

theorem occurs_iff {sep : Text} (hne : sep ≠ []) (t : Text) :
    occurs sep t = true ↔ sep <:+: t := by
  constructor
  · intro h
    obtain ⟨⟨l, r⟩, hcut⟩ := Option.isSome_iff_exists.mp h
    exact ⟨l, r, (cut?_eq_some hcut).symm⟩
  · rintro ⟨l, r, rfl⟩
    exact occurs_append l r hne

/-- A piece that has no character of what stands before a text lies in the text. -/
theorem infix_append_left_iff {sep l : Text} (hne : sep ≠ []) (hl : ∀ c ∈ sep, c ∉ l) (t : Text) :
    sep <:+: l ++ t ↔ sep <:+: t := by
  induction l with
  | nil => rfl
  | cons d l ih =>
    have hrest := ih fun c hc hmem => hl c hc (List.mem_cons_of_mem d hmem)
    have hfirst : ¬ sep <+: d :: (l ++ t) := by
      intro h
      cases sep with
      | nil => exact hne rfl
      | cons c cs =>
        obtain rfl := (List.cons_prefix_cons.mp h).1
        exact hl c List.mem_cons_self List.mem_cons_self
    rw [List.cons_append, List.infix_cons_iff, or_iff_right hfirst, hrest]

theorem infix_append_right_iff {sep r : Text} (hne : sep ≠ []) (hr : ∀ c ∈ sep, c ∉ r) (t : Text) :
    sep <:+: t ++ r ↔ sep <:+: t := by
  have hreverse : ∀ c ∈ sep.reverse, c ∉ r.reverse := by
    intro c hc hmem
    exact hr c (List.mem_reverse.mp hc) (List.mem_reverse.mp hmem)
  rw [← List.reverse_infix, List.reverse_append,
    infix_append_left_iff (mt List.reverse_eq_nil_iff.mp hne) hreverse, List.reverse_infix]

end Text

theorem isPrefixOf_printOpening (t : Text) : printOpening.isPrefixOf (printOpening ++ t) = true :=
  List.isPrefixOf_iff_prefix.mpr (List.prefix_append _ _)

/-- A line prints what stands between the opening and a parenthesis at its end. -/
theorem printArgument?_written {t : Text} (h : '\n' ∉ t) :
    printArgument? (printOpening ++ (t ++ [')'])) = some t := by
  let call : PrintCall (printOpening ++ (t ++ [')'])) := ⟨[], t, [], rfl, h⟩
  have hleading : call.IsLeading := PrintCall.isLeading_of_last rfl List.not_mem_nil
  exact hleading.printArgument?_eq

/-- A run that is at the end of its range is over. -/
theorem Cursor.ending_of_stop_le {cap : LoopCap} {lines : Lines} {c : Cursor}
    (h : c.stop ≤ c.position) : c.ending cap lines = (c.state, none) := by
  rw [ending, Run.range_eq, if_neg (Int.not_lt.mpr h)]
  rfl

/-! ## Quotations -/

/-- A text that stands between two quotes of one kind, all on one line. -/
structure Quotation where
  quote : Char
  body : Text
  isQuote : quote ∈ Expression.quotes := by decide
  onOneLine : '\n' ∉ body := by decide

namespace Quotation

/-- The text with its quotes. -/
def text (q : Quotation) : Text := q.quote :: (q.body ++ [q.quote])

/-- The line that prints the text. -/
def line (q : Quotation) : Text := printOpening ++ (q.text ++ [')'])

/-- The program that prints one text after the other. -/
def program (qs : List Quotation) : Text := ['\n'].intercalate (qs.map line)

/-- The text has no equals sign, or one that belongs to `==` or `!=`. -/
def Printable (q : Quotation) : Prop :=
  '=' ∉ q.body ∨ "==".toList <:+: q.body ∨ "!=".toList <:+: q.body

instance (q : Quotation) : Decidable q.Printable := inferInstanceAs (Decidable (_ ∨ _ ∨ _))

variable (q : Quotation)

theorem isBlank_quote : Text.isBlank q.quote = false := by
  have hquotes : Expression.quotes.all (fun d => !Text.isBlank d) = true := by decide
  simpa using List.all_eq_true.mp hquotes q.quote q.isQuote

theorem quote_ne {c : Char} (h : c ∉ Expression.quotes) : c ≠ q.quote :=
  fun hc => h (hc ▸ q.isQuote)

theorem strip_text : Text.strip q.text = q.text := by
  apply Text.strip_eq_self
  · intro c hc
    obtain rfl : q.quote = c := Option.some.inj hc
    exact q.isBlank_quote
  · intro c hc
    rw [text, ← List.cons_append, List.getLast?_concat] at hc
    obtain rfl : q.quote = c := Option.some.inj hc
    exact q.isBlank_quote

/-- What is between the quotes is the text, whatever it holds. -/
theorem unquote?_text : Expression.unquote? q.text = some q.body := by
  have hquoted : (Expression.quotes.any fun d =>
      q.text.head? = some d && q.text.getLast? = some d) = true := by
    refine List.any_eq_true.mpr ⟨q.quote, q.isQuote, ?_⟩
    rw [text, ← List.cons_append, List.getLast?_concat]
    simp
  rw [Expression.unquote?, if_pos hquoted, text, List.drop_one, List.tail_cons,
    List.dropLast_concat]

/-- The quotation is printed as its text. -/
theorem entryOf_text (env : Environment) {budget : Nat} (hbudget : 0 < budget) :
    Run.entryOf env budget q.text = .ok q.body := by
  obtain ⟨budget, rfl⟩ := Nat.exists_eq_succ_of_ne_zero (Nat.ne_of_gt hbudget)
  have hshape : Expression.shape q.text = .quoted q.body := by
    rw [Expression.shape, q.unquote?_text]
  rw [Run.entryOf, q.strip_text, if_neg (by simp [text]), Expression.eval, q.strip_text, hshape]
  rfl

/-! ## Lines -/

theorem strip_line : Text.strip q.line = q.line := by
  apply Text.strip_eq_self
  · intro c hc
    obtain rfl : 'p' = c := Option.some.inj hc
    decide
  · intro c hc
    rw [line, ← List.append_assoc, List.getLast?_concat] at hc
    obtain rfl : ')' = c := Option.some.inj hc
    decide

/-- The characters that can stand around the text. -/
def frame : Text := printOpening ++ Expression.quotes ++ [')']

/-- What has none of these characters can only be in the text. -/
theorem infix_line_iff {sep : Text} (hne : sep ≠ []) (hsep : sep.all (· ∉ frame) = true) :
    sep <:+: q.line ↔ sep <:+: q.body := by
  have habsent : ∀ c ∈ sep, c ∉ printOpening ++ [q.quote] ∧ c ∉ [q.quote, ')'] := by
    intro c hc
    have hframe : c ∉ frame := by simpa using List.all_eq_true.mp hsep c hc
    simp only [frame, List.mem_append, List.mem_singleton, not_or] at hframe
    have hquote := q.quote_ne hframe.1.2
    simp [hframe.1.1, hframe.2, hquote]
  have hline : q.line = printOpening ++ [q.quote] ++ (q.body ++ [q.quote, ')']) := by
    simp [line, text]
  rw [hline, Text.infix_append_left_iff hne fun c hc => (habsent c hc).1,
    Text.infix_append_right_iff hne fun c hc => (habsent c hc).2]

/-- The line is an assignment exactly if the text makes it one. -/
theorem isAssignment_line : isAssignment q.line = true ↔ ¬ q.Printable := by
  have hequals : '=' ∈ q.line ↔ '=' ∈ q.body := by
    have hquote := q.quote_ne (show '=' ∉ Expression.quotes by decide)
    have hopening : '=' ∉ printOpening := by decide
    simp [line, text, hopening, hquote]
  have hequal : Text.occurs "==".toList q.line = true ↔ "==".toList <:+: q.body :=
    (Text.occurs_iff (by decide) _).trans (q.infix_line_iff (by decide) (by decide))
  have hunequal : Text.occurs "!=".toList q.line = true ↔ "!=".toList <:+: q.body :=
    (Text.occurs_iff (by decide) _).trans (q.infix_line_iff (by decide) (by decide))
  simp only [isAssignment, Printable, Bool.and_eq_true, Bool.not_eq_true', ← Bool.not_eq_true,
    decide_eq_true_eq, hequals, hequal, hunequal, not_or, Decidable.not_not, and_assoc]

theorem lineFeed_not_mem_text : '\n' ∉ q.text := by
  have hquote := q.quote_ne (show '\n' ∉ Expression.quotes by decide)
  simp only [text, List.mem_cons, List.mem_append, List.not_mem_nil, hquote, q.onOneLine, or_self,
    not_false_eq_true]

/-- The line prints the text, or is an assignment. -/
theorem ofLine_line :
    Statement.ofLine (Text.strip q.line) =
      if q.Printable then .print (some q.text) else .assign (.ofLine q.line) := by
  have hopens : printOpening.isPrefixOf q.line = true := isPrefixOf_printOpening _
  have hargument : printArgument? q.line = some q.text :=
    printArgument?_written q.lineFeed_not_mem_text
  rw [q.strip_line, Statement.ofLine, hopens, hargument]
  by_cases hprintable : q.Printable
  · rw [if_neg (mt q.isAssignment_line.mp (not_not_intro hprintable)), if_pos rfl,
      if_pos hprintable]
  · rw [if_pos (q.isAssignment_line.mpr hprintable), if_neg hprintable]

/-! ## Running -/

section

variable (cap : LoopCap) (lines : Lines) {q : Quotation} {c : Cursor}

/-- A printable text is added to the output as it is. -/
theorem dispatch_of_printable (hprintable : q.Printable) (hbudget : 0 < c.budget) :
    c.dispatch cap lines q.line =
      .ok (c.position + 1) { c.state with output := c.state.output.push q.body } := by
  have hsimple : (Statement.ofLine (Text.strip q.line)).simple? c.budget =
      some (Run.print c.budget (some q.text)) := by
    rw [q.ofLine_line, if_pos hprintable]
    rfl
  rw [Cursor.dispatch, Run.statement_of_simple hsimple, Run.bind_apply, Run.print_apply,
    q.entryOf_text c.state.env hbudget]
  rfl

/-- A line that is an assignment prints nothing, whether or not it faults. -/
theorem dispatch_of_not_printable (c : Cursor) (hprintable : ¬ q.Printable) :
    ∃ t : State, t.output = c.state.output ∧
      (c.dispatch cap lines q.line = .ok (c.position + 1) t ∨
        ∃ f, c.dispatch cap lines q.line = .error f t) := by
  have hsimple : (Statement.ofLine (Text.strip q.line)).simple? c.budget =
      some (Run.assign c.budget (.ofLine q.line)) := by
    rw [q.ofLine_line, if_neg hprintable]
    rfl
  rw [Cursor.dispatch, Run.statement_of_simple hsimple, Run.bind_apply, Run.assign_apply]
  cases (Assignment.ofLine q.line).sources.mapM (Expression.eval c.state.env c.budget) with
  | ok values =>
    let bound := c.state.env.bind (Assignment.ofLine q.line).targets values
    exact ⟨{ c.state with env := bound }, rfl, Or.inl rfl⟩
  | error f => exact ⟨c.state, rfl, Or.inr ⟨f, rfl⟩⟩

end

/-! ## Programs -/

theorem ofText_program {qs : List Quotation} (hsome : qs ≠ []) :
    Lines.ofText (program qs) = (qs.map line).toArray := by
  have honeLine : ∀ t ∈ qs.map line, '\n' ∉ t := by
    intro t ht
    obtain ⟨q, -, rfl⟩ := List.mem_map.mp ht
    have hopening : '\n' ∉ printOpening := by decide
    simp [line, hopening, q.lineFeed_not_mem_text]
  rw [Lines.ofText, program, List.splitOn_intercalate '\n' honeLine (by simpa using hsome)]

/-- The point of the run at which the first so many texts are printed. -/
def afterFirst (qs : List Quotation) (n : Nat) : Cursor :=
  ⟨nestingLimit, n, qs.length, 0, { output := ((qs.take n).map body).toArray }⟩

section

variable (cap : LoopCap) {qs : List Quotation} {n : Nat} {q : Quotation}

theorem dispatches_afterFirst (hq : qs[n]? = some q) :
    (afterFirst qs n).Dispatches (qs.map line).toArray q.line := by
  obtain ⟨hn, rfl⟩ := List.getElem?_eq_some_iff.mp hq
  refine ⟨⟨Int.ofNat_lt.mpr hn, ?_⟩, rfl, rfl⟩
  obtain ⟨t, ht, hline⟩ := @Lines.lineAt_eq_ok (qs.map line).toArray n (Int.natCast_nonneg n)
    (by simpa using hn)
  have hget : t = qs[n].line := by
    simpa [hn] using ht.symm
  exact hget ▸ hline

/-- One line more prints one text more. -/
theorem dispatch_afterFirst (lines : Lines) (hq : qs[n]? = some q) (hprintable : q.Printable) :
    (afterFirst qs n).dispatch cap lines q.line =
      .ok (n + 1 : Nat) (afterFirst qs (n + 1)).state := by
  have houtput : ((qs.take (n + 1)).map body).toArray =
      ((qs.take n).map body).toArray.push q.body := by
    rw [List.take_add_one, hq]
    simp
  rw [dispatch_of_printable cap lines hprintable (show 0 < nestingLimit by decide), afterFirst,
    afterFirst, houtput]
  rfl

/-- A run whose first lines are all printable comes behind them, and it ends as it does from
there. -/
theorem prints_first (hn : n ≤ qs.length) (hprintable : ∀ q ∈ qs.take n, q.Printable) :
    Cursor.Reaches cap (qs.map line).toArray (.initial (qs.map line).toArray) (afterFirst qs n) ∧
      (Cursor.initial (qs.map line).toArray).ending cap (qs.map line).toArray =
        (afterFirst qs n).ending cap (qs.map line).toArray := by
  -- no line opens a block, so each step ends where the next line starts
  induction n with
  | zero =>
    have hstart : afterFirst qs 0 = .initial (qs.map line).toArray := by
      simp [afterFirst, Cursor.initial]
    rw [hstart]
    exact ⟨.refl, rfl⟩
  | succ n ih =>
    have hget : qs[n]? = some qs[n] := List.getElem?_eq_getElem hn
    rw [List.take_add_one, hget] at hprintable
    have hbefore := ih (Nat.le_of_succ_le hn) fun q hq =>
      hprintable q (List.mem_append_left _ hq)
    have hlast : qs[n].Printable := hprintable qs[n] (List.mem_append_right _ (by simp))
    have hat := dispatches_afterFirst hget
    have hrun := dispatch_afterFirst cap (qs.map line).toArray hget hlast
    exact ⟨hbefore.1.tail (.next hat hrun), hbefore.2.trans (Cursor.ending_of_dispatch hat hrun)⟩

end

/-- A program that prints quoted texts shows them as they are, one on each line, if none of
them makes its line an assignment.  The first that does is not printed: where the run comes to
its line, the texts before it have been printed, and the assignment prints nothing. -/
theorem printed_verbatim (cap : LoopCap) (qs : List Quotation) (hsome : qs ≠ []) :
    ((∀ q ∈ qs, q.Printable) →
      Outcome.ofProgram cap (program qs) = ⟨['\n'].intercalate (qs.map body), none⟩) ∧
    ∀ (before after : List Quotation) (q : Quotation), qs = before ++ q :: after →
      (∀ p ∈ before, p.Printable) → ¬ q.Printable →
      ∃ (c : Cursor) (t : State),
        Cursor.Reaches cap (.ofText (program qs)) (.initial (.ofText (program qs))) c ∧
        c.position = before.length ∧ c.Dispatches (.ofText (program qs)) q.line ∧
        c.state.output.toList = before.map body ∧
        Statement.ofLine (Text.strip q.line) = .assign (.ofLine q.line) ∧
        t.output.toList = before.map body ∧
        (c.dispatch cap (.ofText (program qs)) q.line = .ok (before.length + 1) t ∨
          ∃ f, c.dispatch cap (.ofText (program qs)) q.line = .error f t) := by
  refine ⟨?_, ?_⟩
  · intro hprintable
    have hall := (prints_first cap (Nat.le_refl qs.length)
      (List.take_length.symm ▸ hprintable)).2
    have hdone : (afterFirst qs qs.length).stop ≤ (afterFirst qs qs.length).position :=
      Int.le_refl _
    rw [Cursor.ofProgram_eq, ofText_program hsome, hall, Cursor.ending_of_stop_le hdone]
    simp [afterFirst, State.text]
  · rintro before after q rfl hbefore hq
    -- the run comes behind the printable lines, whatever the later ones are
    have hfirst : (before ++ q :: after).take before.length = before := List.take_left
    have hget : (before ++ q :: after)[before.length]? = some q := by simp
    have hreaches := (prints_first cap (show before.length ≤ (before ++ q :: after).length by simp)
      (hfirst.symm ▸ hbefore)).1
    have houtput : (afterFirst (before ++ q :: after) before.length).state.output.toList =
        before.map body := by
      simp [afterFirst]
    obtain ⟨t, ht, hrun⟩ := dispatch_of_not_printable cap
      ((before ++ q :: after).map line).toArray (afterFirst _ before.length) hq
    have hst : Statement.ofLine (Text.strip q.line) = .assign (.ofLine q.line) := by
      rw [q.ofLine_line, if_neg hq]
    rw [ofText_program hsome]
    exact ⟨_, t, hreaches, rfl, dispatches_afterFirst hget, houtput, hst, ht ▸ houtput, hrun⟩

/-- Texts with quotes, signs and blanks where they could mislead. -/
def sayings : List Quotation :=
  [{ quote := Char.ofNat 34, body := " a != \"b\") # x = (".toList },
   { quote := Char.ofNat 39, body := "print('1 + 2'), if: ".toList }]

/-- A text that looks like an assignment. -/
def setting : Quotation := { quote := Char.ofNat 34, body := "x, y = 1".toList }

theorem sayings_printed :
    (∀ q ∈ sayings, q.Printable) ∧ ¬ setting.Printable ∧
    Outcome.ofProgram .unusable (program sayings) =
      ⟨" a != \"b\") # x = (\nprint('1 + 2'), if: ".toList, none⟩ ∧
    ∃ (c : Cursor) (t : State),
      Cursor.Reaches .unusable (.ofText (program (sayings ++ [setting])))
        (.initial (.ofText (program (sayings ++ [setting])))) c ∧
      c.Dispatches (.ofText (program (sayings ++ [setting]))) setting.line ∧
      t.output.toList = sayings.map body ∧
      (c.dispatch .unusable (.ofText (program (sayings ++ [setting]))) setting.line = .ok 3 t ∨
        ∃ f, c.dispatch .unusable (.ofText (program (sayings ++ [setting]))) setting.line =
          .error f t) := by
  have hprintable : ∀ q ∈ sayings, q.Printable := by decide +kernel
  have hsetting : ¬ setting.Printable := by decide +kernel
  obtain ⟨hall, -⟩ := printed_verbatim .unusable sayings (List.cons_ne_nil _ _)
  obtain ⟨-, hfirst⟩ := printed_verbatim .unusable (sayings ++ [setting]) (List.cons_ne_nil _ _)
  obtain ⟨c, t, hreaches, -, hat, -, -, houtput, hrun⟩ :=
    hfirst sayings [] setting rfl hprintable hsetting
  exact ⟨hprintable, hsetting, hall hprintable, c, t, hreaches, hat, houtput, hrun⟩

end Quotation

end LineScript
