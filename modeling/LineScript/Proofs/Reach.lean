import LineScript.Program
import LineScript.Proofs.Contract
import Mathlib.Logic.Relation

set_option autoImplicit false

/-!
# What a run reaches

A run is at a cursor: a place in a range, with what is left of the budget and the
state so far.  From there it passes over a line, or finishes the statement of the
line and goes on behind it, or starts one more run of the block that the line
opens.  The cursors that are reached so are all the points of a run between two
simple statements, at every depth and in every run of a loop, also of a run that
faults later.

Proved: a run ends in a state that it reaches, with a fault or without one
(`Cursor.reachesState_ending`), and a property that the lines of the program keep
holds in every state that is reached (`Cursor.Reaches.keeps`).
-/

namespace LineScript

/-- A program shows how its lines end. -/
theorem Outcome.ofProgram_eq_endingFrom (cap : LoopCap) (code : Text) (budget : Nat) :
    ofProgram cap code budget =
      ⟨((Lines.ofText code).endingFrom cap budget {}).1.text,
        ((Lines.ofText code).endingFrom cap budget {}).2⟩ := by
  rw [ofProgram, runLines, Lines.endingFrom, Run.ending]
  split
  · rename_i h
    rw [h]
    rfl
  · rename_i h
    rw [h]
    rfl

/-- A point of a run: the cursor in its range, the budget and the state. -/
structure Cursor where
  budget : Nat
  position : Int
  stop : Int
  level : Int
  state : State

namespace Cursor

/-- The cursor is at a line of its range. -/
structure At (lines : Lines) (c : Cursor) (line : Text) : Prop where
  inside : c.position < c.stop
  line_eq : lines.lineAt c.position = .ok line

/-- The line at the cursor counts, and it stands at the level of the range. -/
structure Dispatches (lines : Lines) (c : Cursor) (line : Text) : Prop
    extends At lines c line where
  significant : Line.isFiller line = false
  at_level : (Line.indent line : Int) = c.level

attribute [grind →] At.inside At.line_eq Dispatches.toAt Dispatches.significant
  Dispatches.at_level

/-- The same range, budget and level at another position, in another state. -/
def moveTo (c : Cursor) (position : Int) (state : State) : Cursor :=
  { c with position := position, state := state }

/-- The state in which the range is left, and the fault that ended it, if one did. -/
def ending (cap : LoopCap) (lines : Lines) (c : Cursor) : State × Option Fault :=
  Run.ending (Run.range cap lines c.budget c.position c.stop c.level) c.state

/-- The start of a run of the block that the line at the cursor opens and that ends at
`next`. -/
def inside (c : Cursor) (next level : Int) (state : State) : Cursor :=
  ⟨c.budget - Run.blockCost, c.position + 1, next, level, state⟩

/-- Run that block once, if the budget allows it. -/
def block (cap : LoopCap) (lines : Lines) (c : Cursor) (next : Int) : Run Unit :=
  Tree.nested c.budget fun left => Run.body cap lines left (c.position + 1) next

/-- Run the statement of the line at the cursor. -/
def dispatch (cap : LoopCap) (lines : Lines) (c : Cursor) (line : Text) :
    EStateM.Result Fault State Int :=
  Run.statement cap lines c.budget c.position c.stop (Text.strip line) (Line.indent line) c.state

/-- From one point of a run to a later one. -/
inductive Step (cap : LoopCap) (lines : Lines) : Cursor → Cursor → Prop
  /-- a line that does not count or is too deep is passed over -/
  | pass {c : Cursor} {line : Text} (hat : c.At lines line)
      (hpass : Line.isFiller line = true ∨ c.level < Line.indent line) :
      Step cap lines c (c.moveTo (c.position + 1) c.state)
  /-- a statement is done -/
  | next {c : Cursor} {line : Text} {j : Int} {t : State} (hat : c.Dispatches lines line)
      (hrun : c.dispatch cap lines line = .ok j t) :
      Step cap lines c (c.moveTo j t)
  /-- a block starts a run, after some that are done -/
  | enter {c : Cursor} {line condition : Text} {kind : BlockKind} {next : Int}
      {runs done inner : Nat} {t : State} (hat : c.Dispatches lines line)
      (hopens : Statement.ofLine (Text.strip line) = .block kind condition)
      (hstop : lines.blockStop c.position (Line.indent line) c.stop = .ok next)
      (hruns : Run.runs cap kind = .ok runs) (hdone : done < runs)
      (hbudget : Run.blockCost ≤ c.budget)
      (hbefore : Run.whileUpTo (Run.holds c.budget condition) (c.block cap lines next) done
        c.state = .ok () t)
      (htest : Run.holds c.budget condition t = .ok true t)
      (hlevel : lines.bodyIndent (c.position + 1) next = .ok (some inner)) :
      Step cap lines c (c.inside next inner t)

/-- A run that is at the first cursor gets to the second. -/
def Reaches (cap : LoopCap) (lines : Lines) : Cursor → Cursor → Prop :=
  Relation.ReflTransGen (Step cap lines)

/-- A run that is at the cursor gets to the state. -/
def ReachesState (cap : LoopCap) (lines : Lines) (c : Cursor) (s : State) : Prop :=
  ∃ d, Reaches cap lines c d ∧ d.state = s

/-- The first point of the run of a program. -/
def initial (lines : Lines) : Cursor := ⟨nestingLimit, 0, lines.size, 0, {}⟩

/-- A program shows how the run from its first point ends. -/
theorem ofProgram_eq (cap : LoopCap) (code : Text) :
    Outcome.ofProgram cap code =
      ⟨((initial (.ofText code)).ending cap (.ofText code)).1.text,
        ((initial (.ofText code)).ending cap (.ofText code)).2⟩ :=
  Outcome.ofProgram_eq_endingFrom cap code nestingLimit

/-! ## A run ends in a state that it reaches -/

variable {cap : LoopCap} {lines : Lines}

theorem At.unique {c : Cursor} {line line' : Text} (h : c.At lines line) (h' : c.At lines line') :
    line = line' :=
  Except.ok.inj (h.line_eq.symm.trans h'.line_eq)

/-- A run goes on from line to line. -/
theorem ending_of_at {c : Cursor} {line : Text} (h : c.At lines line) :
    c.ending cap lines =
      if Line.isFiller line = true ∨ c.level < Line.indent line then
        (c.moveTo (c.position + 1) c.state).ending cap lines
      else if Line.indent line < c.level then (c.state, none)
      else match c.dispatch cap lines line with
        | .ok j t => (c.moveTo j t).ending cap lines
        | .error f t => (t, some f) := by
  rw [ending, Run.range_eq, if_pos h.inside, h.line_eq]
  simp only [Run.ofExcept, pure_bind]
  cases Line.isFiller line with
  | true => simp [ending, moveTo]
  | false =>
    by_cases hlt : Line.indent line < c.level
    · simp [hlt, Int.not_lt.mpr (Int.le_of_lt hlt)]
      rfl
    · by_cases hgt : c.level < Line.indent line
      · simp [hlt, hgt, ending, moveTo]
      · simp only [hlt, hgt, Bool.false_eq_true, or_self, if_false]
        rw [Run.ending, Run.bind_apply, ← dispatch]
        cases c.dispatch cap lines line with
        | ok j t => rfl
        | error f t => rfl

/-- A statement that is done leaves the rest of the range to run. -/
theorem ending_of_dispatch {c : Cursor} {line : Text} {j : Int} {t : State}
    (hat : c.Dispatches lines line) (h : c.dispatch cap lines line = .ok j t) :
    c.ending cap lines = (c.moveTo j t).ending cap lines := by
  have hlevel := hat.at_level
  rw [ending_of_at hat.toAt, if_neg, if_neg, h]
  · omega
  · rw [hat.significant]
    rintro (hfiller | hdeeper)
    · exact absurd hfiller (by simp)
    · omega

/-- A block ends as the range of its lines does. -/
theorem ending_body (budget : Nat) (start stop : Int) (s : State) :
    Run.ending (Run.body cap lines budget start stop) s =
      match lines.bodyIndent start stop with
      | .error f => (s, some f)
      | .ok none => (s, none)
      | .ok (some inner) => ending cap lines ⟨budget, start, stop, inner, s⟩ := by
  rw [Run.body, Run.enter]
  cases lines.bodyIndent start stop with
  | error f => rfl
  | ok level =>
    cases level with
    | none => rfl
    | some inner => exact Run.ending_discard _ s

/-- A run of a block ends as the range of its lines does, if the budget allows it. -/
theorem ending_block {c : Cursor} (hbudget : Run.blockCost ≤ c.budget) (next : Int) (s : State) :
    Run.ending (c.block cap lines next) s =
      match lines.bodyIndent (c.position + 1) next with
      | .error f => (s, some f)
      | .ok none => (s, none)
      | .ok (some inner) => (c.inside next inner s).ending cap lines := by
  rw [block, Tree.nested, if_neg (Nat.not_lt.mpr hbudget), ending_body]
  rfl

theorem ReachesState.head {c d : Cursor} {s : State} (hstep : Step cap lines c d)
    (h : d.ReachesState cap lines s) : c.ReachesState cap lines s := by
  obtain ⟨e, hde, he⟩ := h
  exact ⟨e, .head hstep hde, he⟩

section

variable {c : Cursor} {line condition : Text} {kind : BlockKind} {next : Int} {runs : Nat}
  (hat : c.Dispatches lines line)
  (hopens : Statement.ofLine (Text.strip line) = .block kind condition)
  (hstop : lines.blockStop c.position (Line.indent line) c.stop = .ok next)
  (hruns : Run.runs cap kind = .ok runs)
  (hrange : ∀ inner t, (c.inside next inner t).ReachesState cap lines
    ((c.inside next inner t).ending cap lines).1)
include hat hopens hstop hruns hrange

/-- The state that a run of a block leaves is reached, if the range of its lines always
ends in one that is. -/
theorem reachesState_block {done : Nat} {t : State} (hdone : done < runs)
    (hbefore : Run.whileUpTo (Run.holds c.budget condition) (c.block cap lines next) done
      c.state = .ok () t)
    (htest : Run.holds c.budget condition t = .ok true t) (ht : c.ReachesState cap lines t) :
    c.ReachesState cap lines (Run.ending (c.block cap lines next) t).1 := by
  by_cases hbudget : c.budget < Run.blockCost
  · rw [block, Tree.nested, if_pos hbudget]
    exact ht
  · rw [ending_block (Nat.not_lt.mp hbudget)]
    cases hlevel : lines.bodyIndent (c.position + 1) next with
    | error f => exact ht
    | ok level =>
      cases level with
      | none => exact ht
      | some inner =>
        exact (hrange inner t).head (.enter hat hopens hstop hruns hdone
          (Nat.not_lt.mp hbudget) hbefore htest hlevel)

/-- The states between the runs of a block are reached. -/
theorem reachesState_whileUpTo {done : Nat} {u : State} (hdone : done ≤ runs)
    (h : Run.whileUpTo (Run.holds c.budget condition) (c.block cap lines next) done c.state =
      .ok () u) :
    c.ReachesState cap lines u := by
  induction done generalizing u with
  | zero => exact ⟨c, .refl, (EStateM.Result.ok.inj h).2⟩
  | succ done ih =>
    obtain ⟨t, hbefore, hlast⟩ := Run.whileUpTo_last (Run.state_of_holds _ _) h
    have ht := ih (by omega) hbefore
    rcases hlast with rfl | ⟨htest, hbody⟩
    · exact ht
    · have hu := reachesState_block hat hopens hstop hruns hrange hdone hbefore htest ht
      rwa [Run.ending_of_ok hbody] at hu

end

/-- A statement that faults does so in a state that is reached, if a smaller range always
ends in one that is. -/
theorem reachesState_fault {c : Cursor} {line : Text} {f : Fault} {u : State}
    (hat : c.Dispatches lines line)
    (hrange : ∀ d : Cursor, (d.stop - d.position).toNat < (c.stop - c.position).toNat →
      d.ReachesState cap lines (d.ending cap lines).1)
    (h : c.dispatch cap lines line = .error f u) : c.ReachesState cap lines u := by
  rw [dispatch] at h
  rcases Statement.simple_or_block c.budget (Statement.ofLine (Text.strip line)) with
    ⟨m, hm⟩ | ⟨kind, condition, hst⟩
  · rw [Run.statement_of_simple hm] at h
    exact ⟨c, .refl, (Run.state_of_simple_error hm (Run.error_of_bind_return h)).symm⟩
  · cases hstop : lines.blockStop c.position (Line.indent line) c.stop with
    | error g =>
      rw [Run.statement_of_blockStop_error hst hstop] at h
      exact ⟨c, .refl, (EStateM.Result.error.inj h).2⟩
    | ok next =>
      rw [Run.statement_of_block hst hstop] at h
      have hblock := Run.error_of_bind_return h
      rw [Run.block] at hblock
      cases hruns : Run.runs cap kind with
      | error g =>
        rw [hruns] at hblock
        exact ⟨c, .refl, (EStateM.Result.error.inj hblock).2⟩
      | ok runs =>
        rw [hruns] at hblock
        have hbounds := Lines.blockStop_bounds hstop hat.inside
        have hinner := fun inner t => hrange (c.inside next inner t)
          (Run.left_block_lt hat.inside hbounds)
        obtain ⟨done, t, hdone, hbefore, hlast⟩ :=
          Run.whileUpTo_error (Run.state_of_holds _ _) hblock
        have ht := reachesState_whileUpTo hat hst hstop hruns hinner
          (Nat.le_of_lt hdone) hbefore
        rcases hlast with htest | ⟨htest, hbody⟩
        · rw [Run.state_of_holds_error htest]
          exact ht
        · have hu := reachesState_block hat hst hstop hruns hinner hdone hbefore htest ht
          rwa [block, Tree.nested, Run.ending_of_error hbody] at hu

/-- A run ends in a state that it reaches, with a fault or without one. -/
theorem reachesState_ending (cap : LoopCap) (lines : Lines) (c : Cursor) :
    c.ReachesState cap lines (c.ending cap lines).1 := by
  induction hn : (c.stop - c.position).toNat using Nat.strongRecOn generalizing c with
  | _ n ih =>
    have hsmaller : ∀ d : Cursor, (d.stop - d.position).toNat < (c.stop - c.position).toNat →
        d.ReachesState cap lines (d.ending cap lines).1 :=
      fun d hd => ih _ (hn ▸ hd) d rfl
    by_cases hi : c.position < c.stop
    · cases hline : lines.lineAt c.position with
      | error f =>
        refine ⟨c, .refl, ?_⟩
        rw [ending, Run.range_eq, if_pos hi, hline]
        rfl
      | ok line =>
        have hat : c.At lines line := ⟨hi, hline⟩
        rw [ending_of_at hat]
        split
        · rename_i hpass
          exact (hsmaller (c.moveTo (c.position + 1) c.state) (Run.left_succ_lt hi)).head
            (.pass hat hpass)
        · split
          · exact ⟨c, .refl, rfl⟩
          · rename_i hpass hdedent
            have hdispatch : c.Dispatches lines line :=
              ⟨hat, by simpa using fun h => hpass (Or.inl h), by omega⟩
            split
            · rename_i j t hrun
              exact (hsmaller (c.moveTo j t)
                (Run.left_next_lt hi (Run.statement_bounds hrun hi))).head (.next hdispatch hrun)
            · rename_i f t hrun
              exact reachesState_fault hdispatch hsmaller hrun
    · refine ⟨c, .refl, ?_⟩
      rw [ending, Run.range_eq, if_neg hi]
      rfl

/-! ## What holds at every point of a run -/

/-- The range of the cursor is a part of the program. -/
structure InBounds (lines : Lines) (c : Cursor) : Prop where
  nonneg : 0 ≤ c.position
  le_stop : c.position ≤ c.stop
  stop_le : c.stop ≤ lines.size

theorem initial_inBounds (lines : Lines) : (initial lines).InBounds lines :=
  ⟨Int.le_refl 0, Int.natCast_nonneg _, Int.le_refl _⟩

/-- The range of a cursor in bounds, in natural numbers. -/
theorem InBounds.exists_nat {c : Cursor} (h : c.InBounds lines) :
    ∃ i stop : Nat, c.position = i ∧ c.stop = stop ∧ i ≤ stop ∧ stop ≤ lines.size := by
  have h0 := h.nonneg
  have h1 := h.le_stop
  have h2 := h.stop_le
  exact ⟨c.position.toNat, c.stop.toNat, by omega, by omega, by omega, by omega⟩

theorem Step.inBounds {c d : Cursor} (h : Step cap lines c d) (hc : c.InBounds lines) :
    d.InBounds lines := by
  have h0 := hc.nonneg
  cases h with
  | pass hat _ => exact ⟨by simp only [moveTo]; omega, hat.inside, hc.stop_le⟩
  | next hat hrun =>
    have hj := Run.statement_bounds hrun hat.inside
    exact ⟨by simp only [moveTo]; omega, hj.2, hc.stop_le⟩
  | enter hat _ hstop _ _ _ _ _ _ =>
    have hnext := Lines.blockStop_bounds hstop hat.inside
    have hsize := hc.stop_le
    exact ⟨by simp only [inside]; omega, hnext.1, by simp only [inside]; omega⟩

theorem At.mem {c : Cursor} {line : Text} (h : c.At lines line) : line ∈ lines :=
  Lines.mem_of_lineAt h.line_eq

section

variable {P : State → Prop}
  (hlines : ∀ line ∈ lines, ∀ b, (Statement.ofLine (Text.strip line)).Keeps P (fun _ => True) b)
include hlines

/-- A step keeps what the lines of the program keep. -/
theorem Step.keeps {cap : Int} {c d : Cursor} (h : Step cap lines c d)
    (hc : c.InBounds lines) (hP : P c.state) : P d.state := by
  obtain ⟨i, stop, hi, hstop, hle, hs⟩ := hc.exists_nat
  cases h with
  | pass _ _ => exact hP
  | @next line j t hat hrun =>
    have hinside := hat.inside
    rw [hi, hstop] at hinside
    rw [dispatch, hi, hstop] at hrun
    exact (Run.statement_keeps trivial hlines cap c.budget (by omega) hs
      (hlines line hat.mem) _).of_ok hP hrun
  | @enter line condition kind next runs done inner t hat hopens hnext _ _ _ hbefore _ _ =>
    have hinside := hat.inside
    have hline := hlines line hat.mem c.budget
    rw [hopens] at hline
    rw [hi, hstop] at hinside hnext
    obtain ⟨n, hn, hlt, hnstop, -, -⟩ := Lines.exists_blockStop lines (Line.indent line)
      (show i < stop by omega) hs
    obtain rfl := Except.ok.inj (hnext.symm.trans hn)
    have hbody : Run.Keeps P (fun _ => True) (c.block cap lines n) := by
      rw [block, hi]
      exact Tree.nested_keeps (fun _ => trivial) fun _ =>
        Run.body_keeps trivial hlines cap _ hlt (by omega)
    exact (Run.Keeps.whileUpTo hline hbody done).of_ok hP hbefore

/-- Every state that a run reaches has what its lines keep. -/
theorem Reaches.keeps {cap : Int} {c d : Cursor} (h : Reaches cap lines c d)
    (hc : c.InBounds lines) (hP : P c.state) : d.InBounds lines ∧ P d.state := by
  induction h with
  | refl => exact ⟨hc, hP⟩
  | tail _ hstep ih => exact ⟨hstep.inBounds ih.1, hstep.keeps hlines ih.1 ih.2⟩

end

end Cursor

end LineScript
