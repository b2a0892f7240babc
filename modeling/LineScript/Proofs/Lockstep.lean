import LineScript.Program
import LineScript.Proofs.Contract

set_option autoImplicit false

/-!
# Runs in step

What a program does to a state is settled by what its assignments, its print statements
and its tests do to it; which of them comes next is read off the lines and the answers of
the tests.  So a tree can be run with other actions, on states of another kind
(`Tree.runWith`), and two runs of one tree go in step if their actions do.

Proved: running a tree with the actions of the language is running it
(`Tree.runWith_standard`); runs of a tree go in step if their actions do
(`Tree.runWith_inStep`), and then programs have one outcome under both
(`Outcome.ofActions_eq`); where a range ends does not depend on the state at all
(`Run.range_returns`), so runs of a range go in step if its statements do, and return the
same position (`Run.range_inStep`).
-/

namespace LineScript

variable {σ τ α β : Type}

/-! ## Actions in step -/

/-- Both ends have a result, the same one, or both have a fault, the same one, and the
states in which they leave off are related. -/
inductive SameEnd (R : σ → τ → Prop) :
    EStateM.Result Fault σ α → EStateM.Result Fault τ α → Prop
  | ok (a : α) {s : σ} {t : τ} (h : R s t) : SameEnd R (.ok a s) (.ok a t)
  | error (f : Fault) {s : σ} {t : τ} (h : R s t) : SameEnd R (.error f s) (.error f t)

/-- From related states the two actions come to the same end. -/
def InStep (R : σ → τ → Prop) (m : EStateM Fault σ α) (n : EStateM Fault τ α) : Prop :=
  ∀ s t, R s t → SameEnd R (m s) (n t)

variable {R : σ → τ → Prop}

theorem inStep_pure (a : α) : InStep R (pure a) (pure a) :=
  fun _ _ h => .ok a h

theorem inStep_throw (f : Fault) :
    InStep R (throw f : EStateM Fault σ α) (throw f : EStateM Fault τ α) :=
  fun _ _ h => .error f h

/-- Sequences go in step if their parts do. -/
theorem InStep.bind {m : EStateM Fault σ α} {n : EStateM Fault τ α}
    {f : α → EStateM Fault σ β} {g : α → EStateM Fault τ β} (hm : InStep R m n)
    (hf : ∀ a, InStep R (f a) (g a)) : InStep R (m >>= f) (n >>= g) := by
  intro s t h
  have hend := hm s t h
  simp only [Bind.bind, EStateM.bind]
  generalize m s = first at hend ⊢
  generalize n t = second at hend ⊢
  cases hend with
  | ok a h => exact hf a _ _ h
  | error e h => exact .error e h

/-! ## Trees with other actions -/

/-- What the statements of a program do to a state, with a budget for their expressions. -/
structure Actions (σ : Type) where
  assign : Nat → Assignment → EStateM Fault σ Unit
  print : Nat → Option Text → EStateM Fault σ Unit
  holds : Nat → Text → EStateM Fault σ Bool

namespace Actions

/-- The actions of the language. -/
def standard : Actions State where
  assign := Run.assign
  print := Run.print
  holds := Run.holds

/-- Run `body` as long as `test` holds, but at most so many times. -/
def loop (test : EStateM Fault σ Bool) (body : EStateM Fault σ Unit) :
    Nat → EStateM Fault σ Unit
  | 0 => pure ()
  | n + 1 => do
    if ← test then
      body
      loop test body n

theorem loop_eq_whileUpTo (test : Run Bool) (body : Run Unit) (n : Nat) :
    loop test body n = Run.whileUpTo test body n := by
  induction n with
  | zero => rfl
  | succ n ih => rw [loop, Run.whileUpTo, ih]

/-- Loops go in step if their tests and their bodies do. -/
theorem loop_inStep {test : EStateM Fault σ Bool} {test' : EStateM Fault τ Bool}
    {body : EStateM Fault σ Unit} {body' : EStateM Fault τ Unit} (htest : InStep R test test')
    (hbody : InStep R body body') (n : Nat) : InStep R (loop test body n) (loop test' body' n) := by
  induction n with
  | zero => exact inStep_pure ()
  | succ n ih =>
    refine htest.bind ?_
    intro b
    cases b with
    | false => exact inStep_pure ()
    | true => exact hbody.bind fun _ => ih

end Actions

/-- What the statement evaluates or does goes in step. -/
def Statement.InStep (R : σ → τ → Prop) (actions : Actions σ) (actions' : Actions τ)
    (budget : Nat) : Statement → Prop
  | .assign a => LineScript.InStep R (actions.assign budget a) (actions'.assign budget a)
  | .print argument =>
    LineScript.InStep R (actions.print budget argument) (actions'.print budget argument)
  | .block _ condition =>
    LineScript.InStep R (actions.holds budget condition) (actions'.holds budget condition)
  | .ignored => True

namespace Tree

/-- Run the statements of a tree with the given actions. -/
def runWith (actions : Actions σ) (cap : Int) : Nat → Tree → EStateM Fault σ Unit
  | _, .done => pure ()
  | budget, .assign a rest => do
    actions.assign budget a
    runWith actions cap budget rest
  | budget, .print argument rest => do
    actions.print budget argument
    runWith actions cap budget rest
  | budget, .block kind condition body rest => do
    Actions.loop (actions.holds budget condition)
      (if budget < Run.blockCost then throw .nestingTooDeep
        else runWith actions cap (budget - Run.blockCost) body)
      (kind.times cap.toNat)
    runWith actions cap budget rest
  | budget, .ignored rest => runWith actions cap budget rest

/-- With the actions of the language a tree is run as it is. -/
theorem runWith_standard (cap : Int) (t : Tree) (budget : Nat) :
    t.runWith .standard cap budget = t.run cap budget := by
  induction t generalizing budget with
  | done => rfl
  | assign a rest ih =>
    rw [runWith, run, ih]
    rfl
  | print argument rest ih =>
    rw [runWith, run, ih]
    rfl
  | ignored rest ih => rw [runWith, run, ih]
  | block kind condition body rest ihbody ihrest =>
    rw [runWith, run, ihrest, ihbody, ← Run.block_eq, Actions.loop_eq_whileUpTo]
    cases kind with
    | once => rfl
    | repeated => rfl

/-- Runs of a tree go in step if the actions of its statements do. -/
theorem runWith_inStep {actions : Actions σ} {actions' : Actions τ} (cap : Int) (t : Tree)
    (h : t.All fun st => ∀ b, st.InStep R actions actions' b) (budget : Nat) :
    InStep R (t.runWith actions cap budget) (t.runWith actions' cap budget) := by
  induction t generalizing budget with
  | done => exact inStep_pure ()
  | assign a rest ih => exact (h.1 budget).bind fun _ => ih h.2 budget
  | print argument rest ih => exact (h.1 budget).bind fun _ => ih h.2 budget
  | ignored rest ih => exact ih h.2 budget
  | block kind condition body rest ihbody ihrest =>
    have hbody : InStep R
        (if budget < Run.blockCost then throw .nestingTooDeep
          else body.runWith actions cap (budget - Run.blockCost))
        (if budget < Run.blockCost then throw .nestingTooDeep
          else body.runWith actions' cap (budget - Run.blockCost)) := by
      split
      · exact inStep_throw _
      · exact ihbody h.2.1 _
    exact (Actions.loop_inStep (h.1 budget) hbody _).bind fun _ => ihrest h.2.2 budget

end Tree

/-! ## Programs -/

namespace Outcome

/-- What a program leaves to be seen if it is run with the given actions, on states that
have printed so much. -/
def ofActions (actions : Actions σ) (printed : σ → Array Text) (start : σ) (cap : Int)
    (code : Text) : Outcome :=
  match (Tree.ofLines 0 (Lines.ofText code).toList).runWith actions cap nestingLimit start with
  | .ok _ s => ⟨['\n'].intercalate (printed s).toList, none⟩
  | .error f s => ⟨['\n'].intercalate (printed s).toList, some f⟩

/-- With the actions of the language a program is run as it is. -/
theorem ofActions_standard (cap : Int) (code : Text) :
    ofActions .standard State.output {} cap code = ofProgram cap code := by
  have htree := Run.range_eq_tree cap (.ofText code) nestingLimit 0 (Lines.ofText code).size 0
    (Nat.le_refl _)
  rw [Lines.slice_zero_size] at htree
  rw [ofActions, Tree.runWith_standard, ← htree, ofProgram, runLines]
  simp only [discard, Functor.mapConst, EStateM.map, Function.comp]
  cases Run.range cap (.ofText code) nestingLimit 0 (Lines.ofText code).size 0 {} with
  | ok j s => rfl
  | error f s => rfl

/-- Actions that go in step, on states that show the same, give a program the same
outcome. -/
theorem ofActions_eq {actions : Actions σ} {actions' : Actions τ} {printed : σ → Array Text}
    {printed' : τ → Array Text} {start : σ} {start' : τ}
    (hactions : ∀ st b, Statement.InStep R actions actions' b st)
    (hprinted : ∀ s t, R s t → printed s = printed' t) (hstart : R start start') (cap : Int)
    (code : Text) :
    ofActions actions printed start cap code = ofActions actions' printed' start' cap code := by
  have hall : (Tree.ofLines 0 (Lines.ofText code).toList).All
      fun st => ∀ b, st.InStep R actions actions' b :=
    Tree.all_ofLines 0 _ fun _ _ _ => hactions _
  have hend := Tree.runWith_inStep cap _ hall nestingLimit start start' hstart
  unfold ofActions
  generalize Tree.runWith actions cap nestingLimit _ start = first at hend ⊢
  generalize Tree.runWith actions' cap nestingLimit _ start' = second at hend ⊢
  cases hend with
  | ok _ h => simp only [hprinted _ _ h]
  | error f h => simp only [hprinted _ _ h]

end Outcome

/-! ## Ranges -/

namespace Run

/-- An action goes in step with itself if related states give it the same result to move on
with. -/
theorem inStep_of_proceed {R : State → State → Prop} {m : Run α}
    {result : State → Except Fault β} {value : β → α} {next : State → β → State}
    (hm : ∀ s, m s = proceed s (fun b => .ok (value b) (next s b)) (result s))
    (hresult : ∀ s t, R s t → result s = result t)
    (hnext : ∀ s t b, R s t → R (next s b) (next t b)) : InStep R m m := by
  intro s t h
  rw [hm, hm, hresult s t h]
  cases result t with
  | ok b => exact .ok _ (hnext s t b h)
  | error f => exact .error f h

/-- A statement that is done has passed its own line and the lines of its block. -/
theorem statement_returns {cap : LoopCap} {lines : Lines} {budget i stop : Nat} {indent j : Int}
    {line : Text} (hi : i < stop) (hs : stop ≤ lines.size) {s t : State}
    (h : statement cap lines budget i stop line indent s = .ok j t) :
    ∃ next : Nat, j = next ∧ i < next ∧ next ≤ stop ∧
      ∀ l ∈ lines.slice (i + 1) next, Line.isInside indent l = true := by
  rcases Statement.simple_or_block budget (Statement.ofLine line) with
    ⟨m, hm⟩ | ⟨kind, condition, hst⟩
  · rw [statement_of_simple hm] at h
    refine ⟨i + 1, eq_of_bind_return h, by omega, hi, ?_⟩
    rw [Lines.slice_of_le lines (Nat.le_refl _)]
    intro l hl
    exact absurd hl (by simp)
  · obtain ⟨next, hstop, hlt, hle, hblock, -⟩ := Lines.exists_blockStop lines indent hi hs
    rw [statement_of_block hst hstop] at h
    refine ⟨next, eq_of_bind_return h, hlt, hle, ?_⟩
    rw [hblock]
    intro l hl
    exact List.all_eq_true.mp List.all_takeWhile l hl

/-- A range that is done starts with a line that is shallower than its level, or it passes
lines that are not and goes on behind them. -/
theorem range_first {cap : LoopCap} {lines : Lines} {budget i stop : Nat} {level j : Int}
    (hi : i < stop) (hs : stop ≤ lines.size) {s t : State}
    (h : range cap lines budget i stop level s = .ok j t) :
    (j = i ∧ Lines.block (level - 1) (lines.slice i stop) = []) ∨
    ∃ (next : Nat) (u : State), i < next ∧ next ≤ stop ∧
      (∀ l ∈ lines.slice i next, Line.isInside (level - 1) l = true) ∧
      range cap lines budget next stop level u = .ok j t := by
  obtain ⟨line, hline, hslice⟩ := Lines.slice_eq_cons lines hi hs
  obtain ⟨first, hfirst, hone⟩ := Lines.slice_eq_cons lines (Nat.lt_succ_self i)
    (show i + 1 ≤ lines.size by omega)
  obtain rfl := Except.ok.inj (hline.symm.trans hfirst)
  rw [Lines.slice_of_le lines (Nat.le_refl _)] at hone
  have hpass : Line.isInside (level - 1) line = true →
      ∀ l ∈ lines.slice i (i + 1), Line.isInside (level - 1) l = true := by
    intro hinside
    rw [hone, List.forall_mem_singleton]
    exact hinside
  rw [range_eq, if_pos (by omega), hline] at h
  simp only [ofExcept, pure_bind] at h
  split at h
  · rename_i hfiller
    refine Or.inr ⟨i + 1, s, Nat.lt_succ_self i, hi, hpass ?_, h⟩
    rw [Line.isInside, hfiller, Bool.true_or]
  · rename_i hcounts
    split at h
    · rename_i hdedent
      have hout : ¬ Line.isInside (level - 1) line = true := by
        rw [Line.isInside, Bool.or_eq_true, decide_eq_true_eq]
        rintro (hfiller | hdeep)
        · exact hcounts hfiller
        · omega
      refine Or.inl ⟨(EStateM.Result.ok.inj h).1.symm, ?_⟩
      rw [hslice, Lines.block, List.takeWhile_cons, if_neg hout]
    · have hinside : Line.isInside (level - 1) line = true := by
        rw [Line.isInside, Bool.or_eq_true, decide_eq_true_eq]
        exact Or.inr (by omega)
      split at h
      · exact Or.inr ⟨i + 1, s, Nat.lt_succ_self i, hi, hpass hinside, h⟩
      · rw [bind_apply] at h
        split at h
        · rename_i next u hrun
          obtain ⟨next, rfl, hlt, hle, hblock⟩ := statement_returns hi hs hrun
          refine Or.inr ⟨next, u, hlt, hle, ?_, h⟩
          rw [← Lines.slice_append lines (Nat.le_succ i) hlt]
          intro l hl
          rcases List.mem_append.mp hl with hl | hl
          · exact hpass hinside l hl
          · have hdeeper := hblock l hl
            rw [Line.isInside, Bool.or_eq_true, decide_eq_true_eq] at hdeeper ⊢
            exact hdeeper.imp_right (by omega)
        · exact absurd h (by simp)

/-- A range that is done has passed the lines in front of the first that is shallower than
its level, whatever the state was. -/
theorem range_returns {cap : LoopCap} {lines : Lines} {budget i stop : Nat} {level j : Int}
    (hs : stop ≤ lines.size) {s t : State}
    (h : range cap lines budget i stop level s = .ok j t) :
    j = i + (Lines.block (level - 1) (lines.slice i stop)).length := by
  induction hn : stop - i using Nat.strongRecOn generalizing i s with
  | _ n ih =>
    by_cases hi : i < stop
    · rcases range_first hi hs h with ⟨hj, hnone⟩ | ⟨next, u, hlt, hle, hinside, hrest⟩
      · rw [hnone]
        exact hj
      · have hj := ih (stop - next) (by omega) hrest rfl
        have hlength := @Lines.length_slice lines i next (by omega)
        rw [← Lines.slice_append lines (Nat.le_of_lt hlt) hle, Lines.block,
          List.takeWhile_append_of_pos hinside, List.length_append]
        rw [Lines.block] at hj
        omega
    · rw [range_eq, if_neg (by omega)] at h
      rw [Lines.slice_of_le lines (by omega)]
      exact (EStateM.Result.ok.inj h).1.symm

/-- Runs of a range go in step if its statements do, and return the same position. -/
theorem range_inStep {R : State → State → Prop} (cap : Int) (lines : Lines)
    (budget i stop : Nat) (level : Int) (hs : stop ≤ lines.size)
    (h : ∀ line ∈ lines.slice i stop, Line.isFiller line = false → ∀ b,
      (Statement.ofLine (Text.strip line)).InStep R .standard .standard b) :
    InStep R (range cap lines budget i stop level) (range cap lines budget i stop level) := by
  intro s t hst
  have htree := Tree.runWith_inStep cap _ (Tree.all_ofLines level (lines.slice i stop) h) budget
  rw [Tree.runWith_standard, ← range_eq_tree cap lines budget i stop level hs] at htree
  have hend := htree s t hst
  simp only [discard, Functor.mapConst, EStateM.map, Function.comp] at hend
  cases hrun : range cap lines budget i stop level s with
  | ok j u =>
    cases hrun' : range cap lines budget i stop level t with
    | ok j' u' =>
      rw [hrun, hrun'] at hend
      rw [range_returns hs hrun, range_returns hs hrun']
      cases hend with
      | ok _ h => exact .ok _ h
    | error f u' =>
      rw [hrun, hrun'] at hend
      cases hend
  | error f u =>
    cases hrun' : range cap lines budget i stop level t with
    | ok j' u' =>
      rw [hrun, hrun'] at hend
      cases hend
    | error f' u' =>
      rw [hrun, hrun'] at hend
      cases hend with
      | error _ h => exact .error _ h

end Run

end LineScript
