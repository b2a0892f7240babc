import LineScript.Program
import LineScript.Proofs.Reach

set_option autoImplicit false

/-!
# Runs without a cap

Without a cap a loop runs until its condition is false.  Such a run may never end,
so it is a relation and not a function: a part of a run completes in a state, and
the most runs that one loop in it needs are counted on the way.  A loop that is
entered again is counted anew.

Proved: a run without a cap has at most one result (`Uncapped.unique`), and a cap
that no loop of it exceeds makes no difference (`Uncapped.runs`): the program ends
without a fault and with the same output, also under the smallest such cap
(`Outcome.ofProgram_of_uncapped`).
-/

namespace LineScript

/-- A part of a run, at a cursor. -/
inductive Task where
  /-- what is left of the range -/
  | range (c : Cursor)
  /-- one run of the block that the line at the cursor opens and that ends at `next` -/
  | body (c : Cursor) (next : Int)
  /-- what is left of a loop over that block after some runs -/
  | loop (c : Cursor) (next : Int) (condition : Text) (done : Nat)

/-- Without a cap on loops, the part of the run completes in a state, and the most
runs that a loop in it needs are so many. -/
inductive Uncapped (lines : Lines) : Task → Nat → State → Prop
  /-- the range has no lines left -/
  | finish {c : Cursor} (h : ¬ c.position < c.stop) : Uncapped lines (.range c) 0 c.state
  /-- a shallower line ends the range -/
  | dedent {c : Cursor} {line : Text} (hat : c.At lines line)
      (hsignificant : Line.isFiller line = false) (hdedent : Line.indent line < c.level) :
      Uncapped lines (.range c) 0 c.state
  | pass {c : Cursor} {line : Text} {k : Nat} {t : State} (hat : c.At lines line)
      (hpass : Line.isFiller line = true ∨ c.level < Line.indent line)
      (hrest : Uncapped lines (.range (c.moveTo (c.position + 1) c.state)) k t) :
      Uncapped lines (.range c) k t
  | simple {c : Cursor} {line : Text} {m : Run Unit} {k : Nat} {u t : State}
      (hat : c.Dispatches lines line)
      (hsimple : (Statement.ofLine (Text.strip line)).simple? c.budget = some m)
      (hrun : m c.state = .ok () u)
      (hrest : Uncapped lines (.range (c.moveTo (c.position + 1) u)) k t) :
      Uncapped lines (.range c) k t
  | skip {c : Cursor} {line condition : Text} {next : Int} {k : Nat} {t : State}
      (hat : c.Dispatches lines line)
      (hopens : Statement.ofLine (Text.strip line) = .block .once condition)
      (hstop : lines.blockStop c.position (Line.indent line) c.stop = .ok next)
      (htest : Run.holds c.budget condition c.state = .ok false c.state)
      (hrest : Uncapped lines (.range (c.moveTo next c.state)) k t) :
      Uncapped lines (.range c) k t
  | once {c : Cursor} {line condition : Text} {next : Int} {j k : Nat} {u t : State}
      (hat : c.Dispatches lines line)
      (hopens : Statement.ofLine (Text.strip line) = .block .once condition)
      (hstop : lines.blockStop c.position (Line.indent line) c.stop = .ok next)
      (htest : Run.holds c.budget condition c.state = .ok true c.state)
      (hbody : Uncapped lines (.body c next) j u)
      (hrest : Uncapped lines (.range (c.moveTo next u)) k t) :
      Uncapped lines (.range c) (max j k) t
  | repeated {c : Cursor} {line condition : Text} {next : Int} {j k : Nat} {u t : State}
      (hat : c.Dispatches lines line)
      (hopens : Statement.ofLine (Text.strip line) = .block .repeated condition)
      (hstop : lines.blockStop c.position (Line.indent line) c.stop = .ok next)
      (hloop : Uncapped lines (.loop c next condition 0) j u)
      (hrest : Uncapped lines (.range (c.moveTo next u)) k t) :
      Uncapped lines (.range c) (max j k) t
  /-- the block has no line that counts -/
  | empty {c : Cursor} {next : Int} (hbudget : Run.blockCost ≤ c.budget)
      (hlevel : lines.bodyIndent (c.position + 1) next = .ok none) :
      Uncapped lines (.body c next) 0 c.state
  | inner {c : Cursor} {next : Int} {level k : Nat} {t : State}
      (hbudget : Run.blockCost ≤ c.budget)
      (hlevel : lines.bodyIndent (c.position + 1) next = .ok (some level))
      (hrange : Uncapped lines (.range (c.inside next level c.state)) k t) :
      Uncapped lines (.body c next) k t
  /-- the condition is false, and the loop has needed the runs that are done -/
  | exit {c : Cursor} {next : Int} {condition : Text} {done : Nat}
      (htest : Run.holds c.budget condition c.state = .ok false c.state) :
      Uncapped lines (.loop c next condition done) done c.state
  | again {c : Cursor} {next : Int} {condition : Text} {done j k : Nat} {u t : State}
      (htest : Run.holds c.budget condition c.state = .ok true c.state)
      (hbody : Uncapped lines (.body c next) j u)
      (hloop : Uncapped lines (.loop (c.moveTo c.position u) next condition (done + 1)) k t) :
      Uncapped lines (.loop c next condition done) (max j k) t

/-! ## The capped run -/

namespace Cursor

variable {cap : LoopCap} {lines : Lines} {c : Cursor} {line : Text}

theorem dispatch_simple {m : Run Unit} {u : State}
    (hsimple : (Statement.ofLine (Text.strip line)).simple? c.budget = some m)
    (hrun : m c.state = .ok () u) : c.dispatch cap lines line = .ok (c.position + 1) u := by
  rw [dispatch, Run.statement_of_simple hsimple, Run.bind_apply, hrun]
  rfl

theorem dispatch_block {condition : Text} {kind : BlockKind} {next : Int} {runs : Nat}
    {u : State} (hopens : Statement.ofLine (Text.strip line) = .block kind condition)
    (hstop : lines.blockStop c.position (Line.indent line) c.stop = .ok next)
    (hruns : Run.runs cap kind = .ok runs)
    (h : Run.whileUpTo (Run.holds c.budget condition) (c.block cap lines next) runs c.state =
      .ok () u) : c.dispatch cap lines line = .ok next u := by
  rw [block, Tree.nested] at h
  rw [dispatch, Run.statement_of_block hopens hstop, Run.bind_apply, Run.block, hruns]
  simp only [h]
  rfl

end Cursor

/-- Under a cap, the part of the run completes in the state.  A loop may stop after
its last run without another test, so it gets by with what is left of `k`. -/
def Task.Runs (cap : LoopCap) (lines : Lines) (k : Nat) (t : State) : Task → Prop
  | .range c => c.ending cap lines = (t, none)
  | .body c next => c.block cap lines next c.state = .ok () t
  | .loop c next condition done => ∀ left, k ≤ done + left →
    Run.whileUpTo (Run.holds c.budget condition) (c.block cap lines next) left c.state = .ok () t

namespace Uncapped

variable {lines : Lines}

/-- A loop needs the runs that it has done. -/
theorem done_le {task : Task} {k : Nat} {t : State} (h : Uncapped lines task k t) {c : Cursor}
    {next : Int} {condition : Text} {done : Nat} (htask : task = .loop c next condition done) :
    done ≤ k := by
  induction h generalizing c done with
  | exit htest =>
    cases htask
    exact Nat.le_refl _
  | @again c next condition done j k u t htest hbody hloop _ ih =>
    cases htask
    have := ih rfl
    omega
  | _ => cases htask

/-- A cap that no loop exceeds makes no difference. -/
theorem runs {cap : Int} {task : Task} {k : Nat} {t : State} (h : Uncapped lines task k t)
    (hcap : k ≤ cap) : task.Runs cap lines k t := by
  induction h with
  | @finish c h =>
    rw [Task.Runs, Cursor.ending, Run.range_eq, if_neg h]
    rfl
  | @dedent c line hat hsignificant hdedent =>
    rw [Task.Runs, Cursor.ending_of_at hat, if_neg, if_pos hdedent]
    rw [hsignificant]
    rintro (hfiller | hdeeper)
    · exact absurd hfiller (by simp)
    · omega
  | @pass c line k t hat hpass hrest ih =>
    rw [Task.Runs, Cursor.ending_of_at hat, if_pos hpass]
    exact ih hcap
  | @simple c line m k u t hat hsimple hrun hrest ih =>
    rw [Task.Runs, Cursor.ending_of_dispatch hat (Cursor.dispatch_simple hsimple hrun)]
    exact ih hcap
  | @skip c line condition next k t hat hopens hstop htest hrest ih =>
    have hrun : Run.whileUpTo (Run.holds c.budget condition) (c.block cap lines next) 1 c.state =
        .ok () c.state := Run.whileUpTo_of_false htest 0
    rw [Task.Runs, Cursor.ending_of_dispatch hat (Cursor.dispatch_block hopens hstop rfl hrun)]
    exact ih hcap
  | @once c line condition next j k u t hat hopens hstop htest hbody hrest ihbody ihrest =>
    have hblock : c.block cap lines next c.state = .ok () u := ihbody (by omega)
    have hrun : Run.whileUpTo (Run.holds c.budget condition) (c.block cap lines next) 1 c.state =
        .ok () u := Run.whileUpTo_of_true htest hblock 0
    rw [Task.Runs, Cursor.ending_of_dispatch hat (Cursor.dispatch_block hopens hstop rfl hrun)]
    exact ihrest (by omega)
  | @repeated c line condition next j k u t hat hopens hstop hloop hrest ihloop ihrest =>
    have hrun := ihloop (by omega) cap.toNat (by omega)
    rw [Task.Runs, Cursor.ending_of_dispatch hat (Cursor.dispatch_block hopens hstop rfl hrun)]
    exact ihrest (by omega)
  | @empty c next hbudget hlevel =>
    apply Run.ok_of_ending
    rw [Cursor.ending_block hbudget, hlevel]
  | @inner c next level k t hbudget hlevel hrange ih =>
    apply Run.ok_of_ending
    rw [Cursor.ending_block hbudget, hlevel]
    exact ih hcap
  | @exit c next condition done htest =>
    intro left _
    cases left with
    | zero => rfl
    | succ left => exact Run.whileUpTo_of_false htest left
  | @again c next condition done j k u t htest hbody hloop ihbody ihloop =>
    intro left hleft
    have hdone := hloop.done_le rfl
    have hblock : c.block cap lines next c.state = .ok () u := ihbody (by omega)
    -- one more run is needed, so at least one is left
    obtain ⟨left, rfl⟩ : ∃ n, left = n + 1 := ⟨left - 1, by omega⟩
    rw [Run.whileUpTo_of_true htest hblock]
    exact ihloop (by omega) left (by omega)

/-- A run without a cap has at most one result, and one count. -/
theorem unique {task : Task} {k k' : Nat} {t t' : State} (h : Uncapped lines task k t)
    (h' : Uncapped lines task k' t') : k' = k ∧ t' = t := by
  -- the line at the cursor and the tests decide which rule applies
  induction h generalizing k' t' with
  | finish h =>
    cases h' with
    | finish _ => exact ⟨rfl, rfl⟩
    | _ => grind
  | dedent hat hsignificant hdedent =>
    cases h' with
    | dedent _ _ _ => exact ⟨rfl, rfl⟩
    | _ => grind
  | pass hat hpass hrest ih =>
    cases h' with
    | pass _ _ hrest' => exact ih hrest'
    | _ => grind
  | simple hat hsimple hrun hrest ih =>
    cases h' with
    | simple hat' hsimple' hrun' hrest' =>
      obtain rfl := hat.toAt.unique hat'.toAt
      obtain rfl := Option.some.inj (hsimple.symm.trans hsimple')
      obtain rfl := (EStateM.Result.ok.inj (hrun.symm.trans hrun')).2
      exact ih hrest'
    | _ => grind [Statement.simple?]
  | skip hat hopens hstop htest hrest ih =>
    cases h' with
    | skip hat' hopens' hstop' _ hrest' =>
      obtain rfl := hat.toAt.unique hat'.toAt
      obtain rfl := Except.ok.inj (hstop.symm.trans hstop')
      exact ih hrest'
    | _ => grind [Statement.simple?]
  | once hat hopens hstop htest hbody hrest ihbody ihrest =>
    cases h' with
    | once hat' hopens' hstop' _ hbody' hrest' =>
      obtain rfl := hat.toAt.unique hat'.toAt
      obtain rfl := Except.ok.inj (hstop.symm.trans hstop')
      obtain ⟨rfl, rfl⟩ := ihbody hbody'
      obtain ⟨rfl, rfl⟩ := ihrest hrest'
      exact ⟨rfl, rfl⟩
    | _ => grind [Statement.simple?]
  | repeated hat hopens hstop hloop hrest ihloop ihrest =>
    cases h' with
    | repeated hat' hopens' hstop' hloop' hrest' =>
      obtain rfl := hat.toAt.unique hat'.toAt
      obtain rfl := Except.ok.inj (hstop.symm.trans hstop')
      obtain ⟨-, rfl⟩ := Statement.block.inj (hopens.symm.trans hopens')
      obtain ⟨rfl, rfl⟩ := ihloop hloop'
      obtain ⟨rfl, rfl⟩ := ihrest hrest'
      exact ⟨rfl, rfl⟩
    | _ => grind [Statement.simple?]
  | empty hbudget hlevel =>
    cases h' with
    | empty _ _ => exact ⟨rfl, rfl⟩
    | inner _ hlevel' _ => exact absurd (hlevel.symm.trans hlevel') (by simp)
  | inner hbudget hlevel hrange ih =>
    cases h' with
    | empty _ hlevel' => exact absurd (hlevel.symm.trans hlevel') (by simp)
    | inner _ hlevel' hrange' =>
      obtain rfl := Option.some.inj (Except.ok.inj (hlevel.symm.trans hlevel'))
      exact ih hrange'
  | exit htest =>
    cases h' with
    | exit _ => exact ⟨rfl, rfl⟩
    | again htest' _ _ => exact absurd (htest.symm.trans htest') (by simp)
  | again htest hbody hloop ihbody ihloop =>
    cases h' with
    | exit htest' => exact absurd (htest.symm.trans htest') (by simp)
    | again _ hbody' hloop' =>
      obtain ⟨rfl, rfl⟩ := ihbody hbody'
      obtain ⟨rfl, rfl⟩ := ihloop hloop'
      exact ⟨rfl, rfl⟩

end Uncapped

/-- If a program completes without a cap, then it does so in one way, and every cap
that none of its loops exceeds gives the same output and no fault. -/
theorem Outcome.ofProgram_of_uncapped (code : Text) (k : Nat) (t : State)
    (h : Uncapped (.ofText code) (.range (.initial (.ofText code))) k t) :
    (∀ k' t', Uncapped (.ofText code) (.range (.initial (.ofText code))) k' t' →
      k' = k ∧ t' = t) ∧
    ∀ cap : Int, k ≤ cap → Outcome.ofProgram cap code = ⟨t.text, none⟩ := by
  refine ⟨fun k' t' h' => h.unique h', ?_⟩
  intro cap hcap
  have hrun : (Cursor.initial (.ofText code)).ending cap (.ofText code) = (t, none) :=
    h.runs hcap
  rw [Cursor.ofProgram_eq, hrun]

/-- A loop that is entered once and runs twice. -/
def twoRuns : Text :=
  "a, b = 'go', 'go'\nwhile a == 'go':\n    a, b = b, 'stop'\nprint(a)".toList

/-- The state of the sample when its names have given values. -/
def twoRunsState (a b : String) : State :=
  { env := ⟨[("a".toList, .text a.toList), ("b".toList, .text b.toList)]⟩ }

theorem Outcome.twoRuns_ends :
    Uncapped (.ofText twoRuns) (.range (.initial (.ofText twoRuns))) 2
      { twoRunsState "stop" "stop" with output := #["stop".toList] } ∧
    Outcome.ofProgram (2 : Int) twoRuns = ⟨"stop".toList, none⟩ := by
  have hassign : ∀ a b, (Cursor.mk (nestingLimit - Run.blockCost) 2 3 4
      (twoRunsState a b)).Dispatches (.ofText twoRuns) "    a, b = b, 'stop'".toList :=
    fun a b => ⟨⟨show (2 : Int) < 3 by decide, rfl⟩, rfl, rfl⟩
  have hrange : ∀ a b, Uncapped (.ofText twoRuns)
      (.range ⟨nestingLimit - Run.blockCost, 2, 3, 4, twoRunsState a b⟩) 0
      (twoRunsState b "stop") :=
    fun a b => .simple (hassign a b) rfl rfl (.finish (show ¬ (3 : Int) < 3 by decide))
  have hbody : ∀ a b, Uncapped (.ofText twoRuns)
      (.body ⟨nestingLimit, 1, 4, 0, twoRunsState a b⟩ 3) 0 (twoRunsState b "stop") :=
    fun a b => .inner (show Run.blockCost ≤ nestingLimit by decide) rfl (hrange a b)
  have hloop : Uncapped (.ofText twoRuns)
      (.loop ⟨nestingLimit, 1, 4, 0, twoRunsState "go" "go"⟩ 3 "a == 'go'".toList 0) 2
      (twoRunsState "stop" "stop") :=
    .again rfl (hbody "go" "go") (.again rfl (hbody "go" "stop") (.exit rfl))
  have hprint : Uncapped (.ofText twoRuns)
      (.range ⟨nestingLimit, 3, 4, 0, twoRunsState "stop" "stop"⟩) 0
      { twoRunsState "stop" "stop" with output := #["stop".toList] } := by
    have hat : (Cursor.mk nestingLimit 3 4 0 (twoRunsState "stop" "stop")).Dispatches
        (.ofText twoRuns) "print(a)".toList := ⟨⟨by decide, rfl⟩, rfl, rfl⟩
    exact .simple hat rfl rfl (.finish (by decide))
  have hwhile : (Cursor.mk nestingLimit 1 4 0 (twoRunsState "go" "go")).Dispatches
      (.ofText twoRuns) "while a == 'go':".toList := ⟨⟨by decide, rfl⟩, rfl, rfl⟩
  have hfirst : (Cursor.initial (.ofText twoRuns)).Dispatches (.ofText twoRuns)
      "a, b = 'go', 'go'".toList := ⟨⟨by decide, rfl⟩, rfl, rfl⟩
  have hrun : Uncapped (.ofText twoRuns) (.range (.initial (.ofText twoRuns))) 2
      { twoRunsState "stop" "stop" with output := #["stop".toList] } :=
    .simple hfirst rfl rfl (.repeated hwhile rfl rfl hloop hprint)
  exact ⟨hrun, (ofProgram_of_uncapped twoRuns 2 _ hrun).2 2 (Int.le_refl 2)⟩

end LineScript
