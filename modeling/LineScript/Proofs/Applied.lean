import LineScript.Proofs.Budget

set_option autoImplicit false

/-!
# What a run has applied

A run changes its state by assignments and print statements alone, and by each of
them as a whole.  So wherever a run is stopped, at its end or by a fault in the last
source of an assignment, in a test or in front of a block, what it leaves is what
some of its lines do, one after the other.

Proved: a line that was run deep inside blocks does the same when it is applied from
outside, where the budget is larger (`Run.act_mono`); and the state that a range leaves,
with a fault or without one, is the one to which some of its assignments and print
statements lead (`Run.range_applies_whole_statements`).
-/

namespace LineScript

/-! ## Assignments and print statements -/

/-- The statement is an assignment, or it prints. -/
def Statement.isAction : Statement → Bool
  | .assign _ => true
  | .print _ => true
  | .block _ _ => false
  | .ignored => false

/-- The line counts, and it is an assignment or a print statement. -/
def Line.isAction (line : Text) : Bool :=
  !isFiller line && (Statement.ofLine (Text.strip line)).isAction

namespace Run

/-- Do what an assignment or a print statement asks for. -/
def act (budget : Nat) : Statement → Run Unit
  | .assign a => assign budget a
  | .print argument => print budget argument
  | .block _ _ => pure ()
  | .ignored => pure ()

/-- Do what the assignment or the print statement of a line asks for. -/
def apply (budget : Nat) (line : Text) : Run Unit :=
  act budget (Statement.ofLine (Text.strip line))

/-- What faults changes nothing. -/
theorem state_of_act_error {budget : Nat} {st : Statement} {f : Fault} {s t : State}
    (h : act budget st s = .error f t) : t = s := by
  cases st with
  | assign a => exact state_of_assign_error h
  | print argument => exact state_of_print_error h
  | block kind condition => exact absurd h (by simp [act, pure, EStateM.pure])
  | ignored => exact absurd h (by simp [act, pure, EStateM.pure])

/-- What succeeds does the same if the budget is larger. -/
theorem act_mono {b b' : Nat} (hle : b ≤ b') {st : Statement} {s t : State}
    (h : act b st s = .ok () t) : act b' st s = .ok () t := by
  cases st with
  | assign a => exact (assign_extends hle a).eq_ok h
  | print argument => exact (print_extends hle argument).eq_ok h
  | block kind condition => exact h
  | ignored => exact h

/-! ## Lines one after the other -/

/-- Assignments and print statements among the lines lead, one after the other, from the
first state to the second, and none of them faults. -/
def Leads (budget : Nat) (among : List Text) (s t : State) : Prop :=
  ∃ applied : List Text, (∀ line ∈ applied, line ∈ among ∧ Line.isAction line = true) ∧
    (forM applied (apply budget) : Run Unit) s = .ok () t

section

variable {budget : Nat} {among : List Text} {s t u : State}

theorem leads_refl (budget : Nat) (among : List Text) (s : State) : Leads budget among s s := by
  refine ⟨[], ?_, rfl⟩
  intro line hline
  exact absurd hline (by simp)

/-- One more line can be applied. -/
theorem Leads.snoc (h : Leads budget among s t) {line : Text} (hline : line ∈ among)
    (haction : Line.isAction line = true) (hrun : apply budget line t = .ok () u) :
    Leads budget among s u := by
  obtain ⟨applied, happlied, hbefore⟩ := h
  refine ⟨applied ++ [line], ?_, ?_⟩
  · intro l hl
    rcases List.mem_append.mp hl with hl | hl
    · exact happlied l hl
    · rw [List.mem_singleton.mp hl]
      exact ⟨hline, haction⟩
  · rw [List.forM_append, bind_apply, hbefore]
    simp only [List.forM_cons, List.forM_nil, bind_apply, hrun]
    rfl

/-- A property that the successful ends of an action have is kept, if the action changes
nothing when it faults. -/
theorem keeps_of_unchanged {α : Type} {P : State → Prop} {m : Run α}
    (hok : ∀ s a t, P s → m s = .ok a t → P t) (herror : ∀ s f t, m s = .error f t → t = s) :
    Keeps P (fun _ => True) m := by
  intro s hs
  refine ⟨?_, fun _ _ => trivial⟩
  cases hm : m s with
  | ok a t =>
    rw [ending_of_ok hm]
    exact hok s a t hs hm
  | error f t =>
    rw [ending_of_error hm, herror s f t hm]
    exact hs

/-- Every statement of a line leads on, also one that is run at a smaller budget. -/
theorem leads_keeps {line : Text} (hline : line ∈ among) (hcounts : Line.isFiller line = false)
    {b : Nat} (hb : b ≤ budget) :
    (Statement.ofLine (Text.strip line)).Keeps (Leads budget among s) (fun _ => True) b := by
  have haction : ∀ st, Statement.ofLine (Text.strip line) = st → st.isAction = true →
      Keeps (Leads budget among s) (fun _ => True) (act b st) := by
    intro st hst hact
    refine keeps_of_unchanged ?_ fun _ _ _ => state_of_act_error
    intro t _ u ht hrun
    refine ht.snoc hline ?_ ?_
    · rw [Line.isAction, hcounts, hst, hact]
      rfl
    · rw [apply, hst]
      exact act_mono hb hrun
  cases hst : Statement.ofLine (Text.strip line) with
  | assign a => exact haction _ hst rfl
  | print argument => exact haction _ hst rfl
  | block kind condition =>
    refine keeps_of_unchanged ?_ fun _ _ _ => state_of_holds_error
    intro t b u ht hrun
    rwa [state_of_holds _ _ _ _ _ hrun]
  | ignored => exact trivial

end

/-- The state that a range leaves, with a fault or without one, is the one to which some
of its assignments and print statements lead, one after the other.  A statement that
faults changes nothing, nor does a test that faults, and the output only grows. -/
theorem range_applies_whole_statements (cap : Int) (lines : Lines) (budget start stop : Nat)
    (level : Int) (hs : stop ≤ lines.size) (s : State) :
    Leads budget (lines.slice start stop) s
      (ending (range cap lines budget start stop level) s).1 ∧
    (∀ (b : Nat) (st : Statement) (f : Fault) (t u : State),
      act b st t = .error f u → u = t) ∧
    (∀ (b : Nat) (condition : Text) (f : Fault) (t u : State),
      holds b condition t = .error f u → u = t) ∧
    s.output.toList <+: (ending (range cap lines budget start stop level) s).1.output.toList := by
  have hleads : Keeps (Leads budget (lines.slice start stop) s) (fun _ => True)
      (range cap lines budget start stop level) := by
    refine range_keeps cap lines budget start stop level hs 0 ?_ (Or.inl trivial)
    intro line hline hcounts b hb _
    exact leads_keeps hline hcounts hb
  have houtput : Keeps (fun t => s.output.toList <+: t.output.toList) (fun _ => True)
      (range cap lines budget start stop level) := by
    refine range_keeps cap lines budget start stop level hs 0 ?_ (Or.inl trivial)
    intro line _ _ b _ _
    exact Statement.keeps_output s.output.toList _ b
  refine ⟨(hleads s (leads_refl _ _ s)).1, ?_, ?_, (houtput s List.prefix_rfl).1⟩
  · intro b st f t u
    exact state_of_act_error
  · intro b condition f t u
    exact state_of_holds_error

/-- Two assignments, the second of which divides in its last source. -/
def halfDone : Lines := #["a = 'go'".toList, "b, c = a, x / 0.5".toList]

/-- A name is bound to an integer that no finite double is near to. -/
def hugeState : State := { env := ⟨[("x".toList, .int (Int.pow 2 1024))]⟩ }

/-- The state when the first of the two assignments is done. -/
def firstDone : State := { hugeState with env := hugeState.env.set "a".toList (.text "go".toList) }

theorem halfDone_applies_first :
    2 ≤ halfDone.size ∧
    ending (range (1000 : Int) halfDone nestingLimit 0 2 0) hugeState =
      (firstDone, some .integerTooLarge) ∧
    Leads nestingLimit (halfDone.slice 0 2) hugeState
      (ending (range (1000 : Int) halfDone nestingLimit 0 2 0) hugeState).1 := by
  have hs : 2 ≤ halfDone.size := by decide
  have hfirst : (Cursor.mk nestingLimit 0 2 0 hugeState).Dispatches halfDone "a = 'go'".toList :=
    ⟨⟨by decide, rfl⟩, rfl, rfl⟩
  have hsecond : (Cursor.mk nestingLimit 1 2 0 firstDone).At halfDone
      "b, c = a, x / 0.5".toList := ⟨by decide, rfl⟩
  have hdone : (Cursor.mk nestingLimit 0 2 0 hugeState).dispatch (1000 : Int) halfDone
      "a = 'go'".toList = .ok 1 firstDone := rfl
  have hfault : (Cursor.mk nestingLimit 1 2 0 firstDone).dispatch (1000 : Int) halfDone
      "b, c = a, x / 0.5".toList = .error .integerTooLarge firstDone := by
    have hsources : [" a".toList, " x / 0.5".toList].mapM
        (Expression.eval firstDone.env nestingLimit) = .error .integerTooLarge := by
      decide +kernel
    have hsimple : (Statement.ofLine (Text.strip "b, c = a, x / 0.5".toList)).simple?
        nestingLimit = some (assign nestingLimit
          ⟨["b".toList, "c".toList], [" a".toList, " x / 0.5".toList]⟩) := rfl
    rw [Cursor.dispatch, statement_of_simple hsimple, bind_apply, assign_apply, hsources]
    rfl
  have hlast : (Cursor.mk nestingLimit 1 2 0 firstDone).ending (1000 : Int) halfDone =
      (firstDone, some .integerTooLarge) := by
    rw [Cursor.ending_of_at hsecond, hfault]
    rfl
  have hleads := range_applies_whole_statements 1000 halfDone nestingLimit 0 2 0 hs hugeState
  exact ⟨hs, (Cursor.ending_of_dispatch hfirst hdone).trans hlast, hleads.1⟩

end Run

end LineScript
