import LineScript.Proofs.Reach

set_option autoImplicit false

/-!
# Loops in closed form

A loop runs its body as often as its condition asks for and its limit allows.  So
where it ends can be said without running it step by step: it is the state after the
least number of runs that makes the condition false, or after as many runs as the limit
allows.  If a test or a run faults before that, the fault is the loop's, and the state
is the one that the fault left.

Proved: this closed form, of every loop (`Loop.closedForm`) and hence of every loop
header in a program, where every loop in the body has a closed form of its own, with
the whole limit each time it is started (`Run.while_in_closed_form`).
-/

namespace LineScript

/-- A condition, what is run as long as it holds, and how often that may be run.  The
condition is tested with a budget. -/
structure Loop where
  budget : Nat
  condition : Text
  body : Run Unit
  limit : Nat

namespace Loop

variable (l : Loop) (s : State)

/-- Run the loop. -/
def run : Run Unit := Run.whileUpTo (Run.holds l.budget l.condition) l.body l.limit

/-! ## Runs and tests -/

/-- The state after so many runs of the body, if none of them faults. -/
def stateAfter : Nat → Option State
  | 0 => some s
  | k + 1 =>
    match stateAfter k with
    | none => none
    | some t =>
      match l.body t with
      | .ok _ u => some u
      | .error _ _ => none

/-- The state is the one after so many runs, and the condition is tested there. -/
structure TestsAfter (k : Nat) (t : State) (result : Except Fault Bool) : Prop where
  reached : l.stateAfter s k = some t
  tested : Condition.eval t.env l.budget l.condition = result

/-- The condition is false after so many runs. -/
def FalseAfter (k : Nat) : Prop := ∃ t, l.TestsAfter s k t (.ok false)

/-- So many runs are started, each by a condition that is true. -/
def TrueBefore (k : Nat) : Prop := ∀ j < k, ∃ t, l.TestsAfter s j t (.ok true)

/-- The least number of runs, within the limit, after which the condition is false, or
the limit if there is none. -/
structure ExitsAfter (k : Nat) : Prop where
  le_limit : k ≤ l.limit
  least : ∀ j < k, ¬ l.FalseAfter s j
  stops : l.FalseAfter s k ∨ k = l.limit

/-- Neither the first runs nor the tests before them fault. -/
def Undisturbed (k : Nat) : Prop :=
  ∀ j < k, ∃ t b u, l.TestsAfter s j t (.ok b) ∧ l.body t = .ok () u

/-- After so many runs, each started by a condition that is true, the next test faults,
or the condition is true again and the next run faults. -/
def FaultsAfter (k : Nat) : Prop :=
  l.TrueBefore s k ∧ ∃ t f, l.TestsAfter s k t (.error f) ∨
    ∃ u, l.TestsAfter s k t (.ok true) ∧ l.body t = .error f u

/-- The result of a loop that ends at `next`, in closed form.  One of the three cases
always applies. -/
structure ClosedForm (next : Int) (result : EStateM.Result Fault State Int) : Prop where
  /-- nothing faults up to the last run -/
  ends : ∀ k, l.ExitsAfter s k → l.Undisturbed s k →
    ∃ t, l.stateAfter s k = some t ∧ result = .ok next t
  /-- the next test faults -/
  test_faults : ∀ k < l.limit, l.TrueBefore s k → ∀ t f, l.TestsAfter s k t (.error f) →
    result = .error f t
  /-- the next run faults -/
  body_faults : ∀ k < l.limit, l.TrueBefore s k → ∀ t f u, l.TestsAfter s k t (.ok true) →
    l.body t = .error f u → result = .error f u
  covers : (∃ k, l.ExitsAfter s k ∧ l.Undisturbed s k) ∨ ∃ k < l.limit, l.FaultsAfter s k

/-! ## The closed form -/

variable {l s}

theorem stateAfter_succ {k : Nat} {t u : State} (h : l.stateAfter s k = some t)
    (hbody : l.body t = .ok () u) : l.stateAfter s (k + 1) = some u := by
  rw [stateAfter, h]
  simp only [hbody]

theorem exists_of_stateAfter_succ {k : Nat} {u : State} (h : l.stateAfter s (k + 1) = some u) :
    ∃ t, l.stateAfter s k = some t ∧ l.body t = .ok () u := by
  rw [stateAfter] at h
  split at h
  · exact absurd h (by simp)
  · rename_i t ht
    split at h
    · rename_i v hv
      exact ⟨t, ht, Option.some.inj h ▸ hv⟩
    · exact absurd h (by simp)

theorem TestsAfter.unique {k : Nat} {t t' : State} {result result' : Except Fault Bool}
    (h : l.TestsAfter s k t result) (h' : l.TestsAfter s k t' result') :
    t' = t ∧ result' = result := by
  obtain rfl := Option.some.inj (h.reached.symm.trans h'.reached)
  exact ⟨rfl, h'.tested.symm.trans h.tested⟩

theorem TestsAfter.holds_eq {k : Nat} {t : State} {b : Bool} (h : l.TestsAfter s k t (.ok b)) :
    Run.holds l.budget l.condition t = .ok b t := by
  rw [Run.holds_apply, h.tested]
  rfl

theorem TestsAfter.holds_error {k : Nat} {t : State} {f : Fault}
    (h : l.TestsAfter s k t (.error f)) : Run.holds l.budget l.condition t = .error f t := by
  rw [Run.holds_apply, h.tested]
  rfl

/-- After runs that the condition asked for, the loop goes on with what is left of its
limit. -/
theorem whileUpTo_of_trueBefore {n k : Nat} {t : State} (hk : k ≤ n) (h : l.TrueBefore s k)
    (ht : l.stateAfter s k = some t) :
    Run.whileUpTo (Run.holds l.budget l.condition) l.body n s =
      Run.whileUpTo (Run.holds l.budget l.condition) l.body (n - k) t := by
  induction k generalizing t with
  | zero =>
    obtain rfl := Option.some.inj ht
    rfl
  | succ k ih =>
    obtain ⟨u, hu, hbody⟩ := exists_of_stateAfter_succ ht
    obtain ⟨v, htest⟩ := h k (Nat.lt_succ_self k)
    obtain rfl := Option.some.inj (hu.symm.trans htest.reached)
    have hbefore : l.TrueBefore s k := fun j hj => h j (Nat.lt_succ_of_lt hj)
    rw [ih (by omega) hbefore hu, show n - k = n - (k + 1) + 1 by omega,
      Run.whileUpTo_of_true htest.holds_eq hbody]

/-- What a loop does from its start, if it is left to start one more run. -/
theorem run_of_trueBefore {k : Nat} {t : State} (hk : k < l.limit) (h : l.TrueBefore s k)
    (ht : l.stateAfter s k = some t) :
    ∃ n, l.run s = Run.whileUpTo (Run.holds l.budget l.condition) l.body (n + 1) t := by
  refine ⟨l.limit - (k + 1), ?_⟩
  rw [run, whileUpTo_of_trueBefore (Nat.le_of_lt hk) h ht,
    show l.limit - k = l.limit - (k + 1) + 1 by omega]

/-- Runs that are undisturbed, before the condition is false, are asked for by it. -/
theorem ExitsAfter.trueBefore {k : Nat} (h : l.ExitsAfter s k) (hok : l.Undisturbed s k) :
    l.TrueBefore s k := by
  intro j hj
  obtain ⟨t, b, u, htest, -⟩ := hok j hj
  cases b with
  | true => exact ⟨t, htest⟩
  | false => exact absurd ⟨t, htest⟩ (h.least j hj)

theorem Undisturbed.exists_stateAfter {k : Nat} (h : l.Undisturbed s k) :
    ∃ t, l.stateAfter s k = some t := by
  cases k with
  | zero => exact ⟨s, rfl⟩
  | succ k =>
    obtain ⟨t, b, u, htest, hbody⟩ := h k (Nat.lt_succ_self k)
    exact ⟨u, stateAfter_succ htest.reached hbody⟩

/-- A loop that nothing disturbs ends after its last run. -/
theorem run_of_exitsAfter {k : Nat} (h : l.ExitsAfter s k) (hok : l.Undisturbed s k) :
    ∃ t, l.stateAfter s k = some t ∧ l.run s = .ok () t := by
  obtain ⟨t, ht⟩ := hok.exists_stateAfter
  refine ⟨t, ht, ?_⟩
  rw [run, whileUpTo_of_trueBefore h.le_limit (h.trueBefore hok) ht]
  rcases h.stops with ⟨u, hfalse⟩ | hlimit
  · obtain rfl := Option.some.inj (ht.symm.trans hfalse.reached)
    cases l.limit - k with
    | zero => rfl
    | succ n => exact Run.whileUpTo_of_false hfalse.holds_eq n
  · rw [hlimit, Nat.sub_self]
    rfl

theorem run_of_test_error {k : Nat} {t : State} {f : Fault} (hk : k < l.limit)
    (h : l.TrueBefore s k) (htest : l.TestsAfter s k t (.error f)) : l.run s = .error f t := by
  obtain ⟨n, hrun⟩ := run_of_trueBefore hk h htest.reached
  rw [hrun, Run.whileUpTo_succ_apply, htest.holds_error]

theorem run_of_body_error {k : Nat} {t u : State} {f : Fault} (hk : k < l.limit)
    (h : l.TrueBefore s k) (htest : l.TestsAfter s k t (.ok true))
    (hbody : l.body t = .error f u) : l.run s = .error f u := by
  obtain ⟨n, hrun⟩ := run_of_trueBefore hk h htest.reached
  rw [hrun, Run.whileUpTo_succ_apply, htest.holds_eq]
  simp only [hbody]

theorem TrueBefore.not_falseAfter {j k : Nat} (h : l.TrueBefore s k) (hj : j < k) :
    ¬ l.FalseAfter s j := by
  rintro ⟨t, hfalse⟩
  obtain ⟨u, htrue⟩ := h j hj
  exact absurd (hfalse.unique htrue).2 (by simp)

/-- Up to any number of runs, either all of them are asked for and undisturbed, or the
loop has exited or faulted before. -/
theorem advances_or_settled (l : Loop) (s : State) {n : Nat} (hn : n ≤ l.limit) :
    l.TrueBefore s n ∧ l.Undisturbed s n ∨
    (∃ k, l.ExitsAfter s k ∧ l.Undisturbed s k) ∨ ∃ k < l.limit, l.FaultsAfter s k := by
  induction n with
  | zero => exact Or.inl ⟨fun j hj => absurd hj (by omega), fun j hj => absurd hj (by omega)⟩
  | succ n ih =>
    rcases ih (by omega) with ⟨htrue, hok⟩ | hsettled
    · obtain ⟨t, ht⟩ := hok.exists_stateAfter
      cases htest : Condition.eval t.env l.budget l.condition with
      | error f => exact Or.inr (Or.inr ⟨n, hn, htrue, t, f, Or.inl ⟨ht, htest⟩⟩)
      | ok b =>
        have htests : l.TestsAfter s n t (.ok b) := ⟨ht, htest⟩
        cases b with
        | false =>
          have hleast : ∀ j < n, ¬ l.FalseAfter s j := fun j => htrue.not_falseAfter
          exact Or.inr (Or.inl ⟨n, ⟨by omega, hleast, Or.inl ⟨t, htests⟩⟩, hok⟩)
        | true =>
          cases hbody : l.body t with
          | error f u => exact Or.inr (Or.inr ⟨n, hn, htrue, t, f, Or.inr ⟨u, htests, hbody⟩⟩)
          | ok a u =>
            refine Or.inl ⟨?_, ?_⟩
            · intro j hj
              rcases Nat.lt_succ_iff_lt_or_eq.mp hj with hlt | rfl
              · exact htrue j hlt
              · exact ⟨t, htests⟩
            · intro j hj
              rcases Nat.lt_succ_iff_lt_or_eq.mp hj with hlt | rfl
              · exact hok j hlt
              · exact ⟨t, true, u, htests, hbody⟩
    · exact Or.inr hsettled

/-- A loop that is not settled before its limit exits there. -/
theorem exits_or_faults (l : Loop) (s : State) :
    (∃ k, l.ExitsAfter s k ∧ l.Undisturbed s k) ∨ ∃ k < l.limit, l.FaultsAfter s k := by
  rcases advances_or_settled l s (Nat.le_refl l.limit) with ⟨htrue, hok⟩ | hsettled
  · have hleast : ∀ j < l.limit, ¬ l.FalseAfter s j := fun j => htrue.not_falseAfter
    exact Or.inl ⟨l.limit, ⟨Nat.le_refl _, hleast, Or.inr rfl⟩, hok⟩
  · exact hsettled

/-- Every loop has its closed form. -/
theorem closedForm (l : Loop) (s : State) (next : Int) :
    l.ClosedForm s next ((do l.run; return next) s) := by
  refine ⟨?_, ?_, ?_, exits_or_faults l s⟩
  · intro k hexit hok
    obtain ⟨t, ht, hrun⟩ := run_of_exitsAfter hexit hok
    refine ⟨t, ht, ?_⟩
    rw [Run.bind_apply, hrun]
    rfl
  · intro k hk htrue t f htest
    rw [Run.bind_apply, run_of_test_error hk htrue htest]
  · intro k hk htrue t f u htest hbody
    rw [Run.bind_apply, run_of_body_error hk htrue htest hbody]

end Loop

/-! ## Loops of a program -/

/-- The loop over the block that the line at `i` opens and that ends at `next`. -/
def Loop.ofHeader (cap : Int) (lines : Lines) (budget : Nat) (i next : Int) (condition : Text) :
    Loop where
  budget := budget
  condition := condition
  body := Tree.nested budget fun left => Run.body cap lines left (i + 1) next
  limit := cap.toNat

namespace Run

/-- A loop header runs its loop, and the line after the block is next. -/
theorem statement_of_loop {cap : Int} {lines : Lines} {budget : Nat} {i stop indent next : Int}
    {line condition : Text} (hopens : Statement.ofLine line = .block .repeated condition)
    (hstop : lines.blockStop i indent stop = .ok next) :
    statement cap lines budget i stop line indent =
      (do (Loop.ofHeader cap lines budget i next condition).run; return next) := by
  rw [statement_of_block hopens hstop, block_eq]
  rfl

/-- A loop header ends as the closed form of its loop says, and so does every header of a
loop in the block that a run of the block comes to, however many runs were before. -/
theorem while_in_closed_form (cap : Int) (lines : Lines) (budget : Nat)
    (i stop indent next : Int) (line condition : Text)
    (hopens : Statement.ofLine line = .block .repeated condition)
    (hstop : lines.blockStop i indent stop = .ok next) (s : State) :
    (Loop.ofHeader cap lines budget i next condition).ClosedForm s next
      (statement cap lines budget i stop line indent s) ∧
    ∀ (k : Nat) (t : State) (level next' : Int) (d : Cursor) (line' condition' : Text),
      (Loop.ofHeader cap lines budget i next condition).stateAfter s k = some t →
      Cursor.Reaches cap lines ⟨budget - blockCost, i + 1, next, level, t⟩ d →
      d.Dispatches lines line' →
      Statement.ofLine (Text.strip line') = .block .repeated condition' →
      lines.blockStop d.position (Line.indent line') d.stop = .ok next' →
      (Loop.ofHeader cap lines d.budget d.position next' condition').ClosedForm d.state next'
        (d.dispatch cap lines line') := by
  constructor
  · rw [statement_of_loop hopens hstop]
    exact Loop.closedForm _ s next
  · intro k t level next' d line' condition' _ _ _ hopens' hstop'
    rw [Cursor.dispatch, statement_of_loop hopens' hstop']
    exact Loop.closedForm _ d.state next'

/-- A loop that hands a value over in each run, with a line behind it. -/
def handOver : Lines :=
  #["while a == 'go':".toList, "    a, b = b, 'stop'".toList, "print(a)".toList]

/-- The state in which the two names have given values. -/
def handOverState (a b : String) : State :=
  { env := ⟨[("a".toList, .text a.toList), ("b".toList, .text b.toList)]⟩ }

/-- The loop under a cap of five. -/
def handOverLoop : Loop := .ofHeader 5 handOver nestingLimit 0 2 "a == 'go'".toList

theorem handOver_exits_after_two :
    Statement.ofLine "while a == 'go':".toList = .block .repeated "a == 'go'".toList ∧
    handOver.blockStop 0 0 3 = .ok 2 ∧
    handOverLoop.ExitsAfter (handOverState "go" "go") 2 ∧
    handOverLoop.Undisturbed (handOverState "go" "go") 2 ∧
    statement (5 : Int) handOver nestingLimit 0 3 "while a == 'go':".toList 0
      (handOverState "go" "go") = .ok 2 (handOverState "stop" "stop") := by
  have hopens : Statement.ofLine "while a == 'go':".toList =
      .block .repeated "a == 'go'".toList := rfl
  have hstop : handOver.blockStop 0 0 3 = .ok 2 := rfl
  have hbody : ∀ a b, handOverLoop.body (handOverState a b) = .ok () (handOverState b "stop") := by
    intro a b
    have hat : (Cursor.mk (nestingLimit - blockCost) 1 2 4 (handOverState a b)).Dispatches
        handOver "    a, b = b, 'stop'".toList :=
      ⟨⟨show (1 : Int) < 2 by decide, rfl⟩, rfl, rfl⟩
    have hdone : (Cursor.mk (nestingLimit - blockCost) 1 2 4 (handOverState a b)).dispatch
        (5 : Int) handOver "    a, b = b, 'stop'".toList = .ok 2 (handOverState b "stop") := rfl
    have hbudget : blockCost ≤ nestingLimit := by decide
    have hblock := @Cursor.ending_block (5 : Int) handOver
      ⟨nestingLimit, 0, 3, 0, handOverState a b⟩ hbudget 2 (handOverState a b)
    apply ok_of_ending
    refine hblock.trans ((Cursor.ending_of_dispatch hat hdone).trans ?_)
    rw [Cursor.ending, range_eq]
    rfl
  have hgo : handOverLoop.TestsAfter (handOverState "go" "go") 0 (handOverState "go" "go")
      (.ok true) := ⟨rfl, rfl⟩
  have hagain : handOverLoop.TestsAfter (handOverState "go" "go") 1 (handOverState "go" "stop")
      (.ok true) := ⟨Loop.stateAfter_succ hgo.reached (hbody "go" "go"), rfl⟩
  have hover : handOverLoop.TestsAfter (handOverState "go" "go") 2 (handOverState "stop" "stop")
      (.ok false) := ⟨Loop.stateAfter_succ hagain.reached (hbody "go" "stop"), rfl⟩
  have htrue : handOverLoop.TrueBefore (handOverState "go" "go") 2 := by
    intro j hj
    obtain rfl | rfl : j = 0 ∨ j = 1 := by omega
    · exact ⟨_, hgo⟩
    · exact ⟨_, hagain⟩
  have hok : handOverLoop.Undisturbed (handOverState "go" "go") 2 := by
    intro j hj
    obtain rfl | rfl : j = 0 ∨ j = 1 := by omega
    · exact ⟨_, _, _, hgo, hbody "go" "go"⟩
    · exact ⟨_, _, _, hagain, hbody "go" "stop"⟩
  have hexits : handOverLoop.ExitsAfter (handOverState "go" "go") 2 :=
    ⟨by decide, fun j => htrue.not_falseAfter, Or.inl ⟨_, hover⟩⟩
  obtain ⟨t, ht, hresult⟩ := (while_in_closed_form 5 handOver nestingLimit 0 3 0 2 _ _ hopens
    hstop (handOverState "go" "go")).1.ends 2 hexits hok
  obtain rfl := Option.some.inj (hover.reached.symm.trans ht)
  exact ⟨hopens, hstop, hexits, hok, hresult⟩

end Run

end LineScript
