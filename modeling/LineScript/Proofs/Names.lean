import LineScript.Proofs.Evaluation
import LineScript.Proofs.Lockstep

set_option autoImplicit false

/-!
# Which names a range reads and binds

An expression is taken apart until names are left, so what it reads are names that its
line holds; and what an assignment binds stands before the first equals sign of its line.
Every other name, and every binding to a text that is no name, has no part in the run.

Proved: environments that read alike on the names of a text give it the same value
(`Expression.eval_congr`); an assignment binds the pieces between the commas before the
first equals sign (`Statement.targets_of_assign`); so two runs of a range from
environments that read alike on the names in its lines go in step, and the names that
none of its lines can bind keep their bindings (`Run.range_noninterference`).
-/

namespace LineScript

/-! ## Reading -/

/-- The text is a name, and it occurs in one of the lines. -/
def Lines.Mentions (lines : List Text) (x : Text) : Prop :=
  Expression.isName x = true ∧ Text.IsPieceOf lines x

namespace Environment

/-- The names read alike in both environments.  A name that is unbound reads as zero. -/
def AgreeOn (names : Text → Prop) (env env' : Environment) : Prop :=
  ∀ x, names x → env.read x = env'.read x

theorem read_set (env : Environment) (name x : Text) (v : Value) :
    (env.set name v).read x = if x = name then v else env.read x := by
  unfold read
  rw [get?_set]
  split
  · rfl
  · rfl

theorem AgreeOn.set {names : Text → Prop} {env env' : Environment} (h : env.AgreeOn names env')
    (name : Text) (v : Value) : (env.set name v).AgreeOn names (env'.set name v) := by
  intro x hx
  rw [read_set, read_set, h x hx]

theorem AgreeOn.bind {names : Text → Prop} {env env' : Environment}
    (h : env.AgreeOn names env') (targets : List Text) (values : List Value) :
    (env.bind targets values).AgreeOn names (env'.bind targets values) := by
  induction targets generalizing env env' values with
  | nil => exact h
  | cons name targets ih =>
    cases values with
    | nil => exact ih (h.set name _) []
    | cons v values => exact ih (h.set name v) values

/-- Names that are not among the targets keep their bindings. -/
theorem get?_bind_of_not_mem {x : Text} {targets : List Text} (h : x ∉ targets)
    (env : Environment) (values : List Value) : (env.bind targets values).get? x = env.get? x := by
  induction targets generalizing env values with
  | nil => rfl
  | cons name targets ih =>
    rw [List.mem_cons, not_or] at h
    have hset : ∀ v, (env.set name v).get? x = env.get? x := by
      intro v
      rw [get?_set, if_neg h.1]
    cases values with
    | nil => rw [bind, ih h.2, hset]
    | cons v values => rw [bind, ih h.2, hset]

end Environment

/-! ## Expressions -/

section

variable {lines : List Text} {env env' : Environment}
  (hagree : env.AgreeOn (Lines.Mentions lines) env')

/-- The operands of an expression are pieces of it. -/
theorem Expression.infix_of_shape_binary {e l r : Text} {op : Operator}
    (h : shape e = .binary op l r) : l <:+: e ∧ r <:+: e := by
  have he := split?_eq_some (split?_of_shape h)
  refine ⟨⟨[], [op.symbol] ++ r, ?_⟩, ⟨l ++ [op.symbol], [], ?_⟩⟩
  · rw [he, List.nil_append, List.append_assoc]
  · rw [he, List.append_nil]

include hagree in
/-- A text inside a line has the same value in environments that read alike on the names in
the lines. -/
theorem Expression.eval_congr {t : Text} (ht : Text.IsPieceOf lines t) (budget : Nat) :
    eval env budget t = eval env' budget t := by
  induction budget generalizing t with
  | zero => rfl
  | succ budget ih =>
    have hstrip := ht.part (Text.strip_infix t)
    rw [eval, eval]
    cases hs : shape (Text.strip t) with
    | quoted body => rfl
    | literal e => rfl
    | plain e => rfl
    | name x =>
      obtain ⟨hname, rfl⟩ := of_shape hs
      exact congrArg Except.ok (hagree _ ⟨hname, hstrip⟩)
    | binary op left right =>
      obtain ⟨hleft, hright⟩ := infix_of_shape_binary hs
      simp only [ih (hstrip.part hleft), ih (hstrip.part hright)]

include hagree in
theorem Condition.eval_congr {t : Text} (ht : Text.IsPieceOf lines t) (budget : Nat) :
    eval env budget t = eval env' budget t := by
  have hstrip := ht.part (Text.strip_infix t)
  unfold eval
  split
  · rename_i op left right hs
    obtain ⟨hleft, hright⟩ := infix_of_split? hs
    rw [Expression.eval_congr hagree (hstrip.part hleft),
      Expression.eval_congr hagree (hstrip.part hright)]
  · rw [Expression.eval_congr hagree hstrip]

include hagree in
theorem sources_congr {sources : List Text} (hsources : ∀ e ∈ sources, Text.IsPieceOf lines e)
    (budget : Nat) :
    sources.mapM (Expression.eval env budget) = sources.mapM (Expression.eval env' budget) := by
  induction sources with
  | nil => rfl
  | cons e sources ih =>
    rw [List.forall_mem_cons] at hsources
    rw [List.mapM_cons, List.mapM_cons, ih hsources.2,
      Expression.eval_congr hagree hsources.1]

include hagree in
theorem Run.entryOf_congr {argument : Text} (ht : Text.IsPieceOf lines argument)
    (budget : Nat) : entryOf env budget argument = entryOf env' budget argument := by
  unfold entryOf
  rw [Expression.eval_congr hagree (ht.part (Text.strip_infix argument))]

end

/-! ## Two runs -/

/-- The states are at the same point of two runs: they read alike on the names in the lines,
and the runs have added the same to what was printed before. -/
structure State.Parallel (lines : List Text) (before before' : List Text) (s s' : State) :
    Prop where
  agree : s.env.AgreeOn (Lines.Mentions lines) s'.env
  printed : ∃ added, s.output.toList = before ++ added ∧ s'.output.toList = before' ++ added

/-- The statements of the lines take states that are parallel to such states. -/
theorem Statement.inStep_of_mem {lines : List Text} {line : Text} (hline : line ∈ lines)
    (before before' : List Text) (budget : Nat) :
    (Statement.ofLine (Text.strip line)).InStep (State.Parallel lines before before')
      .standard .standard budget := by
  have hpiece : ∀ e ∈ (ofLine (Text.strip line)).expressions, Text.IsPieceOf lines e :=
    fun e => isPieceOf_of_mem_expressions hline
  cases hst : ofLine (Text.strip line) with
  | assign a =>
    rw [hst] at hpiece
    refine Run.inStep_of_proceed (Run.assign_apply budget a) ?_ ?_
    · intro s s' h
      exact sources_congr h.agree hpiece budget
    · intro s s' values h
      exact ⟨h.agree.bind a.targets values, h.printed⟩
  | print argument =>
    cases argument with
    | none => exact inStep_pure ()
    | some argument =>
      rw [hst] at hpiece
      refine Run.inStep_of_proceed (Run.print_apply budget argument) ?_ ?_
      · intro s s' h
        exact Run.entryOf_congr h.agree (hpiece argument List.mem_cons_self) budget
      · intro s s' entry h
        obtain ⟨added, hs, hs'⟩ := h.printed
        refine ⟨h.agree, added ++ [entry], ?_, ?_⟩
        · rw [Array.toList_push, hs, List.append_assoc]
        · rw [Array.toList_push, hs', List.append_assoc]
  | block kind condition =>
    rw [hst] at hpiece
    refine Run.inStep_of_proceed (Run.holds_apply budget condition) ?_ fun _ _ _ h => h
    intro s s' h
    exact Condition.eval_congr h.agree (hpiece condition List.mem_cons_self) budget
  | ignored => exact trivial

/-! ## Binding -/

/-- The names that a line can bind: the pieces between the commas before its first equals
sign, without blanks at their ends. -/
def Line.targets (line : Text) : List Text :=
  match Text.cut? ['='] line with
  | some (before, _) => (before.splitOn ',').map Text.strip
  | none => []

namespace Text

/-- Only blanks are stripped off. -/
theorem exists_strip (t : Text) :
    ∃ lead tail, (∀ c ∈ lead, isBlank c = true) ∧ (∀ c ∈ tail, isBlank c = true) ∧
      t = lead ++ strip t ++ tail := by
  refine ⟨t.takeWhile isBlank, ((t.dropWhile isBlank).reverse.takeWhile isBlank).reverse,
    List.all_eq_true.mp List.all_takeWhile, ?_, ?_⟩
  · intro c hc
    exact List.all_eq_true.mp List.all_takeWhile c (List.mem_reverse.mp hc)
  · rw [List.append_assoc, strip, stripRight_append, List.takeWhile_append_dropWhile]

/-- Blanks in front of a text do not change its stripped pieces. -/
theorem map_strip_splitOn_append {lead : Text} (h : ∀ c ∈ lead, isBlank c = true) (t : Text) :
    ((lead ++ t).splitOn ',').map strip = (t.splitOn ',').map strip := by
  have hlead : ',' ∉ lead := fun hc => absurd (h ',' hc) (by decide)
  by_cases hcomma : ',' ∈ t
  · obtain ⟨l, r, rfl, hl⟩ := List.eq_append_cons_of_mem hcomma
    have hfirst : ',' ∉ lead ++ l := by
      rw [List.mem_append, not_or]
      exact ⟨hlead, hl⟩
    rw [← List.append_assoc, List.splitOn_append_cons_self_of_not_mem hfirst,
      List.splitOn_append_cons_self_of_not_mem hl, List.map_cons, List.map_cons,
      strip_blanks_append h]
  · have hall : ',' ∉ lead ++ t := by
      rw [List.mem_append, not_or]
      exact ⟨hlead, hcomma⟩
    rw [List.splitOn_eq_singleton hall, List.splitOn_eq_singleton hcomma, List.map_singleton,
      List.map_singleton, strip_blanks_append h]

end Text

theorem Assignment.targets_of_cut? {line before source : Text}
    (h : Text.cut? ['='] line = some (before, source)) :
    (Assignment.ofLine line).targets = (before.splitOn ',').map Text.strip := by
  rw [ofLine, h]
  simp only [Option.getD_some]
  split
  · rfl
  · rename_i hcomma
    rw [List.splitOn_eq_singleton hcomma]
    rfl

/-- An assignment binds the names that its line can bind. -/
theorem Statement.targets_of_assign {line : Text} {a : Assignment}
    (h : Statement.ofLine (Text.strip line) = .assign a) : a.targets = Line.targets line := by
  obtain ⟨hequals, rfl⟩ := ofLine_eq_assign h
  obtain ⟨before, source, hcut, hbefore⟩ := Text.cut?_of_mem hequals
  obtain ⟨lead, tail, hlead, -, hline⟩ := Text.exists_strip line
  have hfirst : '=' ∉ lead ++ before := by
    rw [List.mem_append, not_or]
    exact ⟨fun hc => absurd (hlead '=' hc) (by decide), hbefore⟩
  have hraw : Text.cut? ['='] line = some (lead ++ before, source ++ tail) := by
    rw [hline, Text.cut?_eq_some hcut]
    have hcutRaw := Text.cut?_append_cons hfirst (source ++ tail)
    simpa using hcutRaw
  rw [Assignment.targets_of_cut? hcut, Line.targets, hraw]
  exact (Text.map_strip_splitOn_append hlead before).symm

/-- A name that a line cannot bind keeps its binding. -/
theorem Statement.keeps_binding {line x : Text} (hx : x ∉ Line.targets line) (v : Option Value)
    (budget : Nat) :
    (Statement.ofLine (Text.strip line)).Keeps (fun s => s.env.get? x = v) (fun _ => True)
      budget := by
  refine keeps_of_results ?_ fun _ _ _ _ hs _ => hs
  intro a hst s values hs _
  rw [← targets_of_assign hst] at hx
  show (s.env.bind a.targets values).get? x = v
  rw [Environment.get?_bind_of_not_mem hx, hs]

/-! ## Ranges -/

/-- From environments that read alike on the names in the lines of a range, its runs print
the same, return the same position or end with the same fault, and leave environments that
read alike on those names again.  A name that none of the lines can bind keeps its
binding, or stays unbound. -/
theorem Run.range_noninterference (cap : Int) (lines : Lines) (budget start stop : Nat)
    (level : Int) (hs : stop ≤ lines.size) :
    (∀ s s' : State, s.env.AgreeOn (Lines.Mentions (lines.slice start stop)) s'.env →
      ∃ (added : List Text) (t t' : State),
        ((∃ j, range cap lines budget start stop level s = .ok j t ∧
            range cap lines budget start stop level s' = .ok j t') ∨
          ∃ f, range cap lines budget start stop level s = .error f t ∧
            range cap lines budget start stop level s' = .error f t') ∧
        t.output.toList = s.output.toList ++ added ∧
        t'.output.toList = s'.output.toList ++ added ∧
        t.env.AgreeOn (Lines.Mentions (lines.slice start stop)) t'.env) ∧
    ∀ (s : State) (x : Text), (∀ line ∈ lines.slice start stop, x ∉ Line.targets line) →
      (ending (range cap lines budget start stop level) s).1.env.get? x = s.env.get? x := by
  constructor
  · intro s s' hagree
    have hstep : InStep (State.Parallel (lines.slice start stop) s.output.toList s'.output.toList)
        (range cap lines budget start stop level) (range cap lines budget start stop level) := by
      refine range_inStep cap lines budget start stop level hs ?_
      intro line hline _ b
      exact Statement.inStep_of_mem hline _ _ b
    have hstart : State.Parallel (lines.slice start stop) s.output.toList s'.output.toList s s' :=
      ⟨hagree, [], (List.append_nil _).symm, (List.append_nil _).symm⟩
    have hend := hstep s s' hstart
    generalize hrun : range cap lines budget start stop level s = r at hend
    generalize hrun' : range cap lines budget start stop level s' = r' at hend
    cases hend with
    | @ok j t t' h =>
      obtain ⟨added, ht, ht'⟩ := h.printed
      exact ⟨added, t, t', Or.inl ⟨j, rfl, rfl⟩, ht, ht', h.agree⟩
    | @error f t t' h =>
      obtain ⟨added, ht, ht'⟩ := h.printed
      exact ⟨added, t, t', Or.inr ⟨f, rfl, rfl⟩, ht, ht', h.agree⟩
  · intro s x hx
    have hkeeps : Keeps (fun t => t.env.get? x = s.env.get? x) (fun _ => True)
        (range cap lines budget start stop level) := by
      refine range_keeps cap lines budget start stop level hs 0 ?_ (Or.inl trivial)
      intro line hline _ b _ _
      exact Statement.keeps_binding (hx line hline) _ b
    exact (hkeeps s rfl).1

/-- A block that reads one name and binds another, and a line that prints the latter. -/
def guarded : Lines := #["if y == 0:".toList, "    x = 'go'".toList, "print(x)".toList]

/-- The name that the block reads is bound to what it reads as unbound; beside it there are
a binding to no name and one to a name that the block does not hold. -/
def strangeState : State :=
  { env := ((Environment.empty.set "y".toList (.int 0)).set "if y >".toList
      (.text "odd".toList)).set "z".toList (.int 7) }

theorem guarded_ignores_other_names :
    3 ≤ guarded.size ∧
    strangeState.env.AgreeOn (Lines.Mentions (guarded.slice 0 3)) .empty ∧
    (∃ (added : List Text) (t t' : State),
      ((∃ j, Run.range (1000 : Int) guarded nestingLimit 0 3 0 strangeState = .ok j t ∧
          Run.range (1000 : Int) guarded nestingLimit 0 3 0 {} = .ok j t') ∨
        ∃ f, Run.range (1000 : Int) guarded nestingLimit 0 3 0 strangeState = .error f t ∧
          Run.range (1000 : Int) guarded nestingLimit 0 3 0 {} = .error f t') ∧
      t.output.toList = strangeState.output.toList ++ added ∧
      t'.output.toList = [] ++ added ∧
      t.env.AgreeOn (Lines.Mentions (guarded.slice 0 3)) t'.env) ∧
    (Run.ending (Run.range (1000 : Int) guarded nestingLimit 0 3 0) strangeState).1.env.get?
      "z".toList = some (.int 7) := by
  have hs : 3 ≤ guarded.size := by decide
  have hbound : ∀ line ∈ guarded.slice 0 3, "z".toList ∉ Line.targets line := by decide
  have hagree : strangeState.env.AgreeOn (Lines.Mentions (guarded.slice 0 3)) .empty := by
    rintro x ⟨hname, line, hline, hpart⟩
    have hodd : x ≠ "if y >".toList := by
      rintro rfl
      exact absurd hname (by decide)
    have hz : x ≠ "z".toList := by
      rintro rfl
      have habsent : ∀ l ∈ guarded.slice 0 3, 'z' ∉ l := by decide
      exact habsent line hline (hpart.mem List.mem_cons_self)
    rw [strangeState, Environment.read_set, if_neg hz, Environment.read_set, if_neg hodd,
      Environment.read_set]
    split
    · rfl
    · rfl
  have h := Run.range_noninterference 1000 guarded nestingLimit 0 3 0 hs
  exact ⟨hs, hagree, h.1 strangeState {} hagree, h.2 strangeState _ hbound⟩

end LineScript
