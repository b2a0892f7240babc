import LineScript.Proofs.Reach
import LineScript.Proofs.Soundness

set_option autoImplicit false

/-!
# Where texts come from

No text is ever put together.  What an expression yields as a text was quoted or left
over on the line where it stands, so it is a piece of that line, and it stays one
however often it is bound anew.  What is printed is such a piece or the text of a
number.  Neither holds a line end, so the entries of the output can be told apart
after they have been joined.

Proved: the text of a number holds no line end (`Number.newline_not_mem_written`); a
text that is evaluated inside a line yields a piece of a line
(`Expression.eval_from`); and in every state that a run reaches, and in the one that
it leaves, texts are pieces of lines and the output splits into its entries
(`texts_are_pieces_of_lines`).
-/

namespace LineScript

/-! ## Texts of numbers -/

namespace Text

theorem newline_not_mem_ofNat (n : Nat) : '\n' ∉ ofNat n := by
  intro h
  exact absurd (isDigit_of_mem_ofNat h) (by decide)

theorem newline_not_mem_ofInt (n : Int) : '\n' ∉ ofInt n := by
  cases n with
  | ofNat n => exact newline_not_mem_ofNat n
  | negSucc n =>
    rw [ofInt, List.mem_cons]
    rintro (hsign | hdigits)
    · exact absurd hsign (by decide)
    · exact newline_not_mem_ofNat _ hdigits

end Text

namespace Double

theorem newline_not_mem_sign (negative : Bool) : '\n' ∉ sign negative := by
  cases negative with
  | false => decide
  | true => decide

theorem newline_not_mem_replicate (n : Nat) : '\n' ∉ List.replicate n '0' := by
  intro h
  exact absurd (List.eq_of_mem_replicate h) (by decide)

theorem newline_not_mem_significantDigits (n : Nat) : '\n' ∉ significantDigits n := by
  intro h
  have hdigits := (List.dropWhile_sublist _).subset (List.mem_reverse.mp h)
  exact Text.newline_not_mem_ofNat n (List.mem_reverse.mp hdigits)

theorem newline_not_mem_positional {digits : Text} (h : '\n' ∉ digits) (top : Int) :
    '\n' ∉ positional digits top := by
  unfold positional
  split
  · simp only [List.mem_append, not_or]
    exact ⟨⟨by decide, newline_not_mem_replicate _⟩, h⟩
  · simp only [List.mem_append, not_or]
    refine ⟨⟨⟨fun hm => h (List.mem_of_mem_take hm), newline_not_mem_replicate _⟩, by decide⟩, ?_⟩
    split
    · decide
    · exact fun hm => h (List.mem_of_mem_drop hm)

theorem newline_not_mem_exponential {digits : Text} (h : '\n' ∉ digits) (width : Nat)
    (top : Int) : '\n' ∉ exponential width digits top := by
  unfold exponential
  simp only [List.mem_append, not_or]
  refine ⟨⟨⟨?_, ?_⟩, newline_not_mem_replicate _⟩, Text.newline_not_mem_ofNat _⟩
  · -- a point goes in after the first of several digits
    split
    · rename_i d e rest
      rw [List.mem_cons, not_or] at h
      rw [List.mem_cons, List.mem_cons, not_or, not_or]
      exact ⟨h.1, by decide, h.2⟩
    · exact h
  · split
    · decide
    · decide

theorem newline_not_mem_write (l : Layout) (d : Decimal) : '\n' ∉ l.write d := by
  have hdigits := newline_not_mem_significantDigits d.digits
  unfold Layout.write
  extract_lets digits top
  split
  · exact newline_not_mem_positional hdigits top
  · exact newline_not_mem_exponential hdigits _ top

end Double

namespace Number

theorem newline_not_mem_writtenDouble (x : Double) : '\n' ∉ writtenDouble x := by
  cases x with
  | nan => decide
  | infinite negative =>
    rw [writtenDouble, List.mem_append, not_or]
    exact ⟨Double.newline_not_mem_sign negative, by decide⟩
  | finite negative size =>
    rw [writtenDouble]
    split
    · exact Text.newline_not_mem_ofInt _
    · rw [List.mem_append, not_or]
      refine ⟨Double.newline_not_mem_sign negative, ?_⟩
      unfold Double.Magnitude.written
      split
      · decide
      · exact Double.newline_not_mem_write _ _

/-- The text of a number holds no line end. -/
theorem newline_not_mem_written {x : Number} {t : Text} (h : x.written = .ok t) : '\n' ∉ t := by
  cases x with
  | double x =>
    rw [← Except.ok.inj h]
    exact newline_not_mem_writtenDouble x
  | int n =>
    rw [written] at h
    split at h
    · exact absurd h (by simp)
    · rw [← Except.ok.inj h]
      exact Text.newline_not_mem_ofInt n

end Number

/-! ## Pieces of lines -/

/-- The value is a number, or a text that is a piece of one of the lines. -/
def Value.From (lines : List Text) : Value → Prop
  | .num _ => True
  | .text t => Text.IsPieceOf lines t
  | .bool _ => False

/-- The bound texts are pieces of lines, and so are the entries of the output that are not
the text of a number. -/
structure State.Traceable (lines : List Text) (s : State) : Prop where
  bound : ∀ b ∈ s.env.bindings, b.2.From lines
  printed : ∀ entry ∈ s.output,
    Text.IsPieceOf lines entry ∨ ∃ n : Number, n.written = .ok entry

/-! ## Expressions -/

section

variable {lines : List Text}

theorem Expression.infix_of_unquote? {e body : Text} (h : unquote? e = some body) :
    body <:+: e := by
  unfold unquote? at h
  split at h
  · rw [← Option.some.inj h]
    exact (List.dropLast_prefix _).isInfix.trans (List.drop_suffix 1 e).isInfix
  · exact absurd h (by simp)

theorem Environment.from_read {env : Environment} (h : ∀ b ∈ env.bindings, b.2.From lines)
    (name : Text) : (env.read name).From lines := by
  unfold Environment.read get?
  cases hl : env.bindings.lookup name with
  | none => exact trivial
  | some v =>
    obtain ⟨l₁, l₂, hb, -⟩ := List.lookup_eq_some_iff.mp hl
    exact h (name, v) (by simp [hb])

/-- What is evaluated inside a line yields a number or a piece of a line. -/
theorem Expression.eval_from {env : Environment} (henv : ∀ b ∈ env.bindings, b.2.From lines)
    {budget : Nat} {t : Text} (ht : Text.IsPieceOf lines t) {v : Value}
    (h : eval env budget t = .ok v) : v.From lines := by
  cases budget with
  | zero => exact absurd h (by simp [eval])
  | succ budget =>
    have hstrip := ht.part (Text.strip_infix t)
    rw [eval] at h
    cases hs : shape (Text.strip t) with
    | quoted body =>
      rw [hs] at h
      rw [← Except.ok.inj h]
      exact hstrip.part (infix_of_unquote? (of_shape hs))
    | literal e =>
      rw [hs] at h
      obtain ⟨n, -, hv⟩ := exists_of_bind_eq_ok h
      rw [← Except.ok.inj hv]
      exact trivial
    | name x =>
      rw [hs] at h
      rw [← Except.ok.inj h]
      exact Environment.from_read henv x
    | plain e =>
      rw [hs] at h
      obtain rfl := of_shape hs
      rw [← Except.ok.inj h]
      exact hstrip
    | binary op left right =>
      -- whatever the operands are, the result of an operation is a number
      rw [hs] at h
      obtain ⟨x, -, h⟩ := exists_of_bind_eq_ok h
      obtain ⟨y, -, h⟩ := exists_of_bind_eq_ok h
      obtain ⟨z, -, h⟩ := exists_of_bind_eq_ok h
      rw [← Except.ok.inj h]
      exact trivial

/-! ## Statements -/

/-- What each result has, the results of a list have. -/
theorem forall_mem_of_mapM_eq_ok {α β : Type} {f : α → Except Fault β} {P : β → Prop}
    {l : List α} (hP : ∀ a ∈ l, ∀ b, f a = .ok b → P b) {bs : List β}
    (h : l.mapM f = .ok bs) : ∀ b ∈ bs, P b := by
  induction l generalizing bs with
  | nil =>
    intro b hb
    rw [← Except.ok.inj h] at hb
    exact absurd hb (by simp)
  | cons a l ih =>
    rw [List.forall_mem_cons] at hP
    obtain ⟨b, rest, hb, hrest, rfl⟩ := exists_of_mapM_cons_eq_ok h
    rw [List.forall_mem_cons]
    exact ⟨hP.1 b hb, ih hP.2 hrest⟩

/-- The names of an assignment can be bound to the values of its sources, all or some. -/
theorem State.Traceable.bind {s : State} (h : s.Traceable lines) {budget : Nat}
    {sources : List Text} (hsources : ∀ e ∈ sources, Text.IsPieceOf lines e)
    {values : List Value} (hvalues : sources.mapM (Expression.eval s.env budget) = .ok values)
    (names : List Text) :
    State.Traceable lines { s with env := s.env.bind names values } := by
  refine ⟨?_, h.printed⟩
  refine Environment.forall_mem_bind h.bound ?_
  intro x _ v hv
  rcases hv with hv | rfl
  · refine forall_mem_of_mapM_eq_ok ?_ hvalues v hv
    intro e he w hw
    exact Expression.eval_from h.bound (hsources e he) hw
  · exact trivial

/-- An entry of the output is a piece of a line or the text of a number. -/
theorem Run.entryOf_from {env : Environment} (henv : ∀ b ∈ env.bindings, b.2.From lines)
    {budget : Nat} {argument entry : Text} (hargument : Text.IsPieceOf lines argument)
    (h : Run.entryOf env budget argument = .ok entry) :
    Text.IsPieceOf lines entry ∨ ∃ n : Number, n.written = .ok entry := by
  unfold Run.entryOf at h
  split at h
  · rw [← Except.ok.inj h]
    exact Or.inl (hargument.part List.nil_infix)
  · obtain ⟨v, hv, hentry⟩ := exists_of_bind_eq_ok h
    have hfrom := Expression.eval_from henv (hargument.part (Text.strip_infix argument)) hv
    cases v with
    | num n => exact Or.inr ⟨n, hentry⟩
    | text t =>
      rw [← Except.ok.inj hentry]
      exact Or.inl hfrom
    | bool b => exact hfrom.elim

/-- The statement of a line keeps texts traceable. -/
theorem Statement.keeps_traceable {line : Text} (hline : line ∈ lines) (budget : Nat) :
    (Statement.ofLine (Text.strip line)).Keeps (State.Traceable lines) (fun _ => True)
      budget := by
  have hpiece : ∀ e ∈ (ofLine (Text.strip line)).expressions, Text.IsPieceOf lines e :=
    fun e => isPieceOf_of_mem_expressions hline
  refine keeps_of_results ?_ ?_
  · intro a hst s values hs hvalues
    rw [hst] at hpiece
    exact hs.bind hpiece hvalues a.targets
  · intro argument hst s entry hs hentry
    rw [hst] at hpiece
    refine ⟨hs.bound, ?_⟩
    intro e he
    rcases Array.mem_push.mp he with he | rfl
    · exact hs.printed e he
    · exact Run.entryOf_from hs.bound (hpiece argument List.mem_cons_self) hentry

end

/-! ## Outputs -/

theorem State.traceable_empty (lines : List Text) : State.Traceable lines {} := by
  refine ⟨?_, ?_⟩
  · intro b hb
    exact absurd hb (by simp [Environment.empty])
  · intro entry hentry
    exact absurd hentry (by simp)

/-- Texts that come from the lines of a program hold no line end. -/
theorem State.Traceable.newline_not_mem {code : Text} {s : State}
    (h : s.Traceable (Lines.ofText code).toList) {entry : Text} (hentry : entry ∈ s.output) :
    '\n' ∉ entry := by
  rcases h.printed entry hentry with ⟨line, hline, hpart⟩ | ⟨n, hn⟩
  · exact fun hm => Lines.not_mem_of_mem_ofText (Array.mem_toList_iff.mp hline) (hpart.mem hm)
  · exact Number.newline_not_mem_written hn

/-- The joined output splits into its entries. -/
theorem State.Traceable.splitOn_text {code : Text} {s : State}
    (h : s.Traceable (Lines.ofText code).toList) (hne : s.output ≠ #[]) :
    s.text.splitOn '\n' = s.output.toList := by
  refine List.splitOn_intercalate '\n' ?_ ?_
  · intro entry hentry
    exact h.newline_not_mem (Array.mem_toList_iff.mp hentry)
  · exact fun hnil => hne (Array.toList_eq_nil_iff.mp hnil)

/-- In every state that a run reaches, also halfway through an assignment, and in the one
that it ends in, with a fault or without one, the bound texts are pieces of the program's
lines, the entries of the output are such pieces or texts of numbers, and no entry holds a
line end.  So the output that the program shows splits into its entries, if there are
any. -/
theorem texts_are_pieces_of_lines (cap : Int) (code : Text) :
    (∀ c, Cursor.Reaches cap (.ofText code) (.initial (.ofText code)) c →
      c.state.Traceable (Lines.ofText code).toList ∧ (∀ entry ∈ c.state.output, '\n' ∉ entry) ∧
      (c.state.output ≠ #[] → c.state.text.splitOn '\n' = c.state.output.toList)) ∧
    (∀ (c : Cursor) (line : Text) (a : Assignment) (values : List Value) (n : Nat),
      Cursor.Reaches cap (.ofText code) (.initial (.ofText code)) c →
      c.Dispatches (.ofText code) line → Statement.ofLine (Text.strip line) = .assign a →
      a.sources.mapM (Expression.eval c.state.env c.budget) = .ok values →
      State.Traceable (Lines.ofText code).toList
        { c.state with env := c.state.env.bind (a.targets.take n) values }) ∧
    (Run.ending (runLines cap (.ofText code)) {}).1.Traceable (Lines.ofText code).toList ∧
    ((Run.ending (runLines cap (.ofText code)) {}).1.output ≠ #[] →
      (Outcome.ofProgram cap code).output.splitOn '\n' =
        (Run.ending (runLines cap (.ofText code)) {}).1.output.toList) := by
  have hreached : ∀ c, Cursor.Reaches cap (.ofText code) (.initial (.ofText code)) c →
      c.state.Traceable (Lines.ofText code).toList := by
    intro c hc
    refine (hc.keeps ?_ (Cursor.initial_inBounds _) (State.traceable_empty _)).2
    intro line hline b
    exact Statement.keeps_traceable (Array.mem_toList_iff.mpr hline) b
  have hended : (Run.ending (runLines cap (.ofText code)) {}).1.Traceable
      (Lines.ofText code).toList := by
    -- the state that a run leaves is one that it reaches
    obtain ⟨d, hd, hstate⟩ := Cursor.reachesState_ending cap (.ofText code)
      (.initial (.ofText code))
    exact hstate ▸ hreached d hd
  refine ⟨?_, ?_, hended, ?_⟩
  · intro c hc
    have htraceable := hreached c hc
    exact ⟨htraceable, fun entry => htraceable.newline_not_mem, htraceable.splitOn_text⟩
  · intro c line a values n hc hat hst hvalues
    refine (hreached c hc).bind ?_ hvalues _
    intro e he
    have hpiece : e ∈ (Statement.ofLine (Text.strip line)).expressions := by
      rw [hst]
      exact he
    exact Statement.isPieceOf_of_mem_expressions (Array.mem_toList_iff.mpr hat.mem) hpiece
  · intro hne
    rw [Cursor.ofProgram_eq]
    exact hended.splitOn_text hne

/-- A program that prints a text of two words and an empty entry. -/
def twoEntries : Text := "a, b = 'x y', 'z'\nprint(a)\nprint()".toList

/-- The state of the sample when both names are bound and so much is printed. -/
def twoEntriesState (output : Array Text) : State :=
  { env := ⟨[("a".toList, .text "x y".toList), ("b".toList, .text "z".toList)]⟩, output := output }

theorem twoEntries_splits :
    Cursor.Reaches (1000 : Int) (.ofText twoEntries) (.initial (.ofText twoEntries))
      ⟨nestingLimit, 1, 3, 0, twoEntriesState #[]⟩ ∧
    (twoEntriesState #[]).Traceable (Lines.ofText twoEntries).toList ∧
    State.Traceable (Lines.ofText twoEntries).toList
      { env := Environment.empty.bind (["a".toList, "b".toList].take 1)
          [.text "x y".toList, .text "z".toList] } ∧
    (Run.ending (runLines (1000 : Int) (.ofText twoEntries)) {}).1 =
      twoEntriesState #["x y".toList, []] ∧
    (Outcome.ofProgram (1000 : Int) twoEntries).output.splitOn '\n' = ["x y".toList, []] := by
  have h := texts_are_pieces_of_lines 1000 twoEntries
  have hassign : (Cursor.initial (.ofText twoEntries)).Dispatches (.ofText twoEntries)
      "a, b = 'x y', 'z'".toList := ⟨⟨by decide, rfl⟩, rfl, rfl⟩
  have hprint : (Cursor.mk nestingLimit 1 3 0 (twoEntriesState #[])).Dispatches
      (.ofText twoEntries) "print(a)".toList := ⟨⟨by decide, rfl⟩, rfl, rfl⟩
  have hblank : (Cursor.mk nestingLimit 2 3 0 (twoEntriesState #["x y".toList])).Dispatches
      (.ofText twoEntries) "print()".toList := ⟨⟨by decide, rfl⟩, rfl, rfl⟩
  have hbound : (Cursor.initial (.ofText twoEntries)).dispatch (1000 : Int) (.ofText twoEntries)
      "a, b = 'x y', 'z'".toList = .ok 1 (twoEntriesState #[]) := rfl
  have hreached : Cursor.Reaches (1000 : Int) (.ofText twoEntries)
      (.initial (.ofText twoEntries)) ⟨nestingLimit, 1, 3, 0, twoEntriesState #[]⟩ :=
    .single (.next hassign hbound)
  have hlast : (Cursor.mk nestingLimit 3 3 0 (twoEntriesState #["x y".toList, []])).ending
      (1000 : Int) (.ofText twoEntries) = (twoEntriesState #["x y".toList, []], none) := by
    rw [Cursor.ending, Run.range_eq]
    rfl
  have hended : Run.ending (runLines (1000 : Int) (.ofText twoEntries)) {} =
      (twoEntriesState #["x y".toList, []], none) :=
    (Cursor.ending_of_dispatch hassign hbound).trans
      ((Cursor.ending_of_dispatch hprint rfl).trans
        ((Cursor.ending_of_dispatch hblank rfl).trans hlast))
  refine ⟨hreached, (h.1 _ hreached).1, ?_, by rw [hended], ?_⟩
  · exact h.2.1 _ _ ⟨["a".toList, "b".toList], [" 'x y'".toList, " 'z'".toList]⟩ _ 1 .refl
      hassign rfl rfl
  · have hsplits := h.2.2.2
    rw [hended] at hsplits
    exact hsplits (by simp [twoEntriesState])

end LineScript
