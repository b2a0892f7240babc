import LineScript.Proofs.Lockstep
import Mathlib.Logic.Function.Iterate

set_option autoImplicit false

/-!
# Progress

Ranges, statements, blocks and bodies are run by functions that call each other.  Here a
call is an object of its own, and what the functions do with the answers to their calls is
one step of unfolding (`Call.unfold`).  The calls that one step makes are smaller
(`Call.size`): they have fewer lines in reach, or runs of a block less to go.  The budget has
no part in it.

Proved: a step of unfolding looks at smaller calls only (`Call.unfold_congr`), so a call is
settled once it has been unfolded more often than it is large, whatever is answered below
(`Call.iterate_unfold`), and the functions are the only ones that answer their calls in this
way (`Call.unfold_eq_self_iff`): no run goes on for ever.  What a statement runs lies behind
its line, inside its range and deeper than its header (`Run.dispatchesInside`), and a range
ends at its end or at a line that is shallower than its level (`Run.range_stops`).
-/

namespace LineScript

/-! ## Calls -/

/-- A call of one of the functions that run a program. -/
inductive Call where
  /-- run what is left of a range, at a level -/
  | range (budget : Nat) (i stop level : Int)
  /-- run the statement of a line -/
  | statement (budget : Nat) (i stop : Int) (line : Text) (indent : Int)
  /-- run a block as long as its condition holds, but at most so many times -/
  | block (budget : Nat) (condition : Text) (start stop : Int) (left : Nat)
  /-- run a block once -/
  | body (budget : Nat) (start stop : Int)

namespace Call

/-- What a call returns: a position to go on from, or nothing. -/
abbrev Result : Call → Type
  | .range _ _ _ _ => Int
  | .statement _ _ _ _ _ => Int
  | .block _ _ _ _ _ => Unit
  | .body _ _ _ => Unit

/-- An answer to every call. -/
abbrev Answers := (a : Call) → Run a.Result

/-- The answers that the functions give. -/
def standard (cap : LoopCap) (lines : Lines) : Answers
  | .range budget i stop level => Run.range cap lines budget i stop level
  | .statement budget i stop line indent => Run.statement cap lines budget i stop line indent
  | .block budget condition start stop left =>
    Run.whileUpTo (Run.holds budget condition)
      (Tree.nested budget fun rest => Run.body cap lines rest start stop) left
  | .body budget start stop => Tree.nested budget fun rest => Run.body cap lines rest start stop

/-- One step of unfolding: what a function does, with given answers to the calls that it
makes. -/
def unfold (cap : LoopCap) (lines : Lines) (ask : Answers) : Answers
  | .range budget i stop level =>
    if i < stop then do
      let line ← Run.ofExcept (lines.lineAt i)
      if Line.isFiller line then ask (.range budget (i + 1) stop level)
      else if Line.indent line < level then pure i
      else if level < Line.indent line then ask (.range budget (i + 1) stop level)
      else do
        let next ← ask (.statement budget i stop (Text.strip line) (Line.indent line))
        ask (.range budget next stop level)
    else pure i
  | .statement budget i stop line indent =>
    match Statement.ofLine line with
    | .assign a => do
      Run.assign budget a
      return i + 1
    | .print argument => do
      Run.print budget argument
      return i + 1
    | .ignored => pure (i + 1)
    | .block kind condition => do
      let next ← Run.ofExcept (lines.blockStop i indent stop)
      let times ← Run.ofExcept (Run.runs cap kind)
      ask (.block budget condition (i + 1) next times)
      return next
  | .block _ _ _ _ 0 => pure ()
  | .block budget condition start stop (left + 1) => do
    if ← Run.holds budget condition then
      ask (.body budget start stop)
      ask (.block budget condition start stop left)
  | .body budget start stop =>
    if budget < Run.blockCost then throw .nestingTooDeep
    else match lines.bodyIndent start stop with
      | .error f => throw f
      | .ok none => pure ()
      | .ok (some level) => discard (ask (.range (budget - Run.blockCost) start stop level))

/-! ## Sizes -/

/-- The most times that a block can run under a cap. -/
def mostRuns : LoopCap → Nat
  | .atMost n => max 1 n.toNat
  | .unusable => 1

theorem le_mostRuns {cap : LoopCap} {kind : BlockKind} {n : Nat}
    (h : Run.runs cap kind = .ok n) : n ≤ mostRuns cap := by
  cases kind with
  | once =>
    obtain rfl := Except.ok.inj h
    cases cap with
    | atMost m => exact Nat.le_max_left 1 m.toNat
    | unusable => exact Nat.le_refl 1
  | repeated =>
    cases cap with
    | atMost m => exact Except.ok.inj h ▸ Nat.le_max_right 1 m.toNat
    | unusable => exact absurd h (by simp [Run.runs])

/-- What a line of a range counts: the statement of it, its block with all its runs, and
its body. -/
def lineSize (cap : LoopCap) : Nat := mostRuns cap + 4

/-- The size of a call: the lines that are in its reach, and the runs that are left of its
block. -/
def size (cap : LoopCap) : Call → Nat
  | .range _ i stop _ => lineSize cap * (stop - i).toNat
  | .statement _ i stop _ _ => lineSize cap * (stop - (i + 1)).toNat + mostRuns cap + 3
  | .block _ _ start stop left => lineSize cap * (stop - start).toNat + left + 2
  | .body _ start stop => lineSize cap * (stop - start).toNat + 1

section

variable {cap : LoopCap} {lines : Lines} {i stop next : Int}

theorem lineSize_mul_lt {m n : Nat} (h : m < n) :
    lineSize cap * m + mostRuns cap + 3 < lineSize cap * n := by
  have hle : lineSize cap * (m + 1) ≤ lineSize cap * n := Nat.mul_le_mul_left _ h
  rw [Nat.mul_succ] at hle
  have hline : lineSize cap = mostRuns cap + 4 := rfl
  omega

/-- What is left of a range further on is smaller. -/
theorem size_range_lt (hi : i < stop) (hnext : i < next) (budget : Nat) (level : Int) :
    (range budget next stop level).size cap < (range budget i stop level).size cap := by
  have hlt : (stop - next).toNat < (stop - i).toNat := by omega
  have hsize := @lineSize_mul_lt cap _ _ hlt
  simp only [size]
  omega

/-- The first statement of a range is smaller than the range. -/
theorem size_statement_lt (hi : i < stop) (budget : Nat) (level : Int) (line : Text)
    (indent : Int) :
    (statement budget i stop line indent).size cap < (range budget i stop level).size cap :=
  lineSize_mul_lt (Run.left_succ_lt hi)

/-- The end of a block does not put more lines in reach. -/
theorem left_blockStop_le {indent : Int} (h : lines.blockStop i indent stop = .ok next) :
    (next - (i + 1)).toNat ≤ (stop - (i + 1)).toNat := by
  unfold Lines.blockStop at h
  split at h
  · exact absurd h (by simp)
  · exact Nat.le_of_eq (Except.ok.inj h ▸ rfl)
  · rename_i hfind
    have hbounds := Lines.find?_bounds hfind
    have hnext := Except.ok.inj h
    omega

/-- The block of a statement is smaller than the statement. -/
theorem size_block_lt {indent : Int} {kind : BlockKind} {times : Nat}
    (hstop : lines.blockStop i indent stop = .ok next) (htimes : Run.runs cap kind = .ok times)
    (budget : Nat) (condition line : Text) :
    (block budget condition (i + 1) next times).size cap <
      (statement budget i stop line indent).size cap := by
  have hlines := Nat.mul_le_mul_left (lineSize cap) (left_blockStop_le hstop)
  have hruns := le_mostRuns htimes
  simp only [size]
  omega

end

/-! ## Unfolding -/

/-- Statements move the cursor on. -/
def Answers.Progresses (ask : Answers) : Prop :=
  ∀ (budget : Nat) (i stop : Int) (line : Text) (indent j : Int) (s t : State), i < stop →
    ask (.statement budget i stop line indent) s = .ok j t → i < j

theorem standard_progresses (cap : LoopCap) (lines : Lines) : (standard cap lines).Progresses :=
  fun _ _ _ _ _ _ _ _ hi h => (Run.statement_bounds h hi).1

/-- A step of unfolding looks at smaller calls only. -/
theorem unfold_congr (cap : LoopCap) (lines : Lines) {ask ask' : Answers}
    (hask : ask.Progresses) {a : Call} (h : ∀ b : Call, b.size cap < a.size cap → ask b = ask' b) :
    unfold cap lines ask a = unfold cap lines ask' a := by
  cases a with
  | range budget i stop level =>
    simp only [unfold]
    split
    · rename_i hi
      have hnext : ∀ next, i < next →
          ask (.range budget next stop level) = ask' (.range budget next stop level) :=
        fun next hlt => h _ (size_range_lt hi hlt budget level)
      rw [hnext (i + 1) (Int.lt_succ i)]
      congr 1
      funext line
      rw [← h _ (size_statement_lt hi budget level (Text.strip line) (Line.indent line))]
      -- where the range goes on depends on the state, so the rest is compared state by state
      have hrest : (do
            let next ← ask (.statement budget i stop (Text.strip line) (Line.indent line))
            ask (.range budget next stop level)) =
          (do
            let next ← ask (.statement budget i stop (Text.strip line) (Line.indent line))
            ask' (.range budget next stop level)) := by
        funext s
        rw [Run.bind_apply, Run.bind_apply]
        split
        · rename_i next t hrun
          rw [hnext next (hask _ _ _ _ _ _ _ _ hi hrun)]
        · rfl
      rw [hrest]
    · rfl
  | statement budget i stop line indent =>
    simp only [unfold]
    cases Statement.ofLine line with
    | assign a => rfl
    | print argument => rfl
    | ignored => rfl
    | block kind condition =>
      cases hstop : lines.blockStop i indent stop with
      | error f => rfl
      | ok next =>
        simp only [Run.ofExcept, pure_bind]
        cases htimes : Run.runs cap kind with
        | error f => rfl
        | ok times =>
          simp only [pure_bind]
          rw [h _ (size_block_lt hstop htimes budget condition line)]
  | block budget condition start stop left =>
    cases left with
    | zero => rfl
    | succ left =>
      have hbody : ask (.body budget start stop) = ask' (.body budget start stop) := by
        apply h
        simp only [size]
        omega
      have hblock : ask (.block budget condition start stop left) =
          ask' (.block budget condition start stop left) := by
        apply h
        simp only [size]
        omega
      simp only [unfold, hbody, hblock]
  | body budget start stop =>
    have hrange : ∀ level : Int, ask (.range (budget - Run.blockCost) start stop level) =
        ask' (.range (budget - Run.blockCost) start stop level) :=
      fun level => h _ (Nat.lt_succ_self _)
    simp only [unfold, hrange]

/-- The functions answer their calls as one step of unfolding does. -/
theorem unfold_standard (cap : LoopCap) (lines : Lines) :
    unfold cap lines (standard cap lines) = standard cap lines := by
  funext a
  cases a with
  | range budget i stop level => exact (Run.range_eq cap lines budget i stop level).symm
  | statement budget i stop line indent =>
    simp only [unfold, standard, Run.statement]
    cases Statement.ofLine line with
    | assign a => rfl
    | print argument => rfl
    | ignored => rfl
    | block kind condition =>
      simp only [Run.block]
      cases Run.runs cap kind with
      | error f => rfl
      | ok times => rfl
  | block budget condition start stop left =>
    cases left with
    | zero => rfl
    | succ left => rfl
  | body budget start stop => rfl

/-- A call is settled once it has been unfolded more often than it is large, whatever is
answered below. -/
theorem iterate_unfold (cap : LoopCap) (lines : Lines) (ask : Answers) {n : Nat} {a : Call}
    (h : a.size cap < n) : (unfold cap lines)^[n] ask a = standard cap lines a := by
  induction n generalizing a with
  | zero => exact absurd h (Nat.not_lt_zero _)
  | succ n ih =>
    rw [Function.iterate_succ_apply', ← congrFun (unfold_standard cap lines) a]
    symm
    apply unfold_congr cap lines (standard_progresses cap lines)
    intro b hb
    exact (ih (by omega)).symm

/-- The functions are the only ones that answer their calls in this way. -/
theorem unfold_eq_self_iff (cap : LoopCap) (lines : Lines) (ask : Answers) :
    unfold cap lines ask = ask ↔ ask = standard cap lines := by
  constructor
  · intro hself
    funext a
    rw [← iterate_unfold cap lines ask (Nat.lt_succ_self (a.size cap)),
      Function.iterate_fixed hself]
  · rintro rfl
    exact unfold_standard cap lines

end Call

/-! ## Statements -/

/-- The level of a block is deeper than its header. -/
theorem Lines.lt_of_level?_block {header : Int} {rest : List Text} {level : Nat}
    (h : level? (block header rest) = some level) : header < level := by
  obtain ⟨line, hline, rfl⟩ := Option.map_eq_some_iff.mp h
  have hcounts := List.head?_dropWhile_not Line.isFiller (block header rest)
  rw [hline] at hcounts
  have hmem : line ∈ block header rest :=
    (List.dropWhile_sublist _).subset (List.mem_of_head? hline)
  have hinside := List.all_eq_true.mp List.all_takeWhile line hmem
  rw [Line.isInside, hcounts, Bool.false_or, decide_eq_true_eq] at hinside
  exact hinside

namespace Run

/-- What a statement at a position of a range can do: it is done with its line, or it opens
a block that ends behind its line and inside the range.  What it runs of a block is the
range of the lines between the two, at a level that is deeper than its own. -/
inductive DispatchesInside (cap : LoopCap) (lines : Lines) (budget : Nat) (i stop : Int)
    (line : Text) (indent : Int) : Prop
  | simple (m : Run Unit) (hm : (Statement.ofLine line).simple? budget = some m)
      (h : statement cap lines budget i stop line indent = do
        m
        return i + 1)
  | empty (kind : BlockKind) (condition : Text) (next : Int)
      (hst : Statement.ofLine line = .block kind condition)
      (hstop : lines.blockStop i indent stop = .ok next) (hlt : i < next) (hle : next ≤ stop)
      (hlevel : lines.bodyIndent (i + 1) next = .ok none)
      (h : statement cap lines budget i stop line indent = do
        block cap budget kind condition fun _ => pure ()
        return next)
  | block (kind : BlockKind) (condition : Text) (next : Int) (level : Nat)
      (hst : Statement.ofLine line = .block kind condition)
      (hstop : lines.blockStop i indent stop = .ok next) (hlt : i < next) (hle : next ≤ stop)
      (hlevel : lines.bodyIndent (i + 1) next = .ok (some level)) (hdeeper : indent < level)
      (h : statement cap lines budget i stop line indent = do
        block cap budget kind condition fun left =>
          discard (range cap lines left (i + 1) next level)
        return next)

/-- What a statement runs lies behind its line, inside its range and deeper than its
header. -/
theorem dispatchesInside (cap : LoopCap) {lines : Lines} (budget : Nat) {i stop : Nat}
    (hi : i < stop) (hs : stop ≤ lines.size) (line : Text) (indent : Int) :
    DispatchesInside cap lines budget i stop line indent := by
  rcases Statement.simple_or_block budget (Statement.ofLine line) with
    ⟨m, hm⟩ | ⟨kind, condition, hst⟩
  · exact .simple m hm (statement_of_simple hm)
  · obtain ⟨next, hstop, hlt, hle, hblock, -⟩ := Lines.exists_blockStop lines indent hi hs
    have hlevel : lines.bodyIndent ((i : Int) + 1) next = .ok (Lines.level? _) :=
      Lines.bodyIndent_eq lines (show i + 1 ≤ next from hlt) (Nat.le_trans hle hs)
    have hstatement := @statement_of_block cap lines budget i stop indent line kind condition next
      hst hstop
    simp only [body, enter, hlevel] at hstatement
    rw [hblock] at hlevel hstatement
    cases hdepth : Lines.level? (Lines.block indent (lines.slice (i + 1) stop)) with
    | none =>
      rw [hdepth] at hlevel hstatement
      exact .empty kind condition next hst hstop (by omega) (by omega) hlevel hstatement
    | some level =>
      rw [hdepth] at hlevel hstatement
      exact .block kind condition next level hst hstop (by omega) (by omega) hlevel
        (Lines.lt_of_level?_block hdepth) hstatement

/-! ## Ranges -/

/-- A range that is done ends inside it: at its end, or at a line that is shallower than its
level. -/
theorem range_stops {cap : LoopCap} {lines : Lines} {budget start stop : Nat} {level r : Int}
    (hstart : start ≤ stop) (hs : stop ≤ lines.size) {s t : State}
    (h : range cap lines budget start stop level s = .ok r t) :
    start ≤ r ∧ r ≤ stop ∧ (r = stop ∨ ∃ line, lines.lineAt r = .ok line ∧
      Line.isFiller line = false ∧ Line.indent line < level) := by
  obtain rfl := range_returns hs h
  have hafter : lines.slice (start + (Lines.block (level - 1) (lines.slice start stop)).length)
      stop = Lines.afterBlock (level - 1) (lines.slice start stop) := by
    rw [Lines.slice_drop, Lines.drop_length_block]
  have hlength := congrArg List.length
    (Lines.block_append_afterBlock (level - 1) (lines.slice start stop))
  rw [List.length_append, Lines.length_slice lines hs] at hlength
  refine ⟨by omega, by omega, ?_⟩
  cases hrest : Lines.afterBlock (level - 1) (lines.slice start stop) with
  | nil =>
    rw [hrest, List.length_nil] at hlength
    exact Or.inl (by omega)
  | cons line rest =>
    obtain ⟨-, hline, -⟩ := Lines.of_slice_eq_cons lines hs (hafter.trans hrest)
    have hout := List.head?_dropWhile_not (Line.isInside (level - 1)) (lines.slice start stop)
    rw [← Lines.afterBlock, hrest] at hout
    simp only [List.head?_cons, Line.isInside, Bool.or_eq_false_iff,
      decide_eq_false_iff_not] at hout
    exact Or.inr ⟨line, hline, hout.1, by omega⟩

/-- In a range inside the program every statement moves the cursor on, not past the end, and
runs of its block no more than the lines behind it, at a deeper level.  The range ends at its
end or at a shallower line, and at the outermost level always at its end.  So the functions
that run it call each other on smaller calls only, and every call is settled after as many
steps as it is large. -/
theorem range_progress (cap : LoopCap) (lines : Lines) (budget start stop : Nat) (level : Int)
    (hstart : start ≤ stop) (hs : stop ≤ lines.size) :
    (∀ (i : Nat) (line : Text) (indent : Int), start ≤ i → i < stop →
      (∀ s j t, statement cap lines budget i stop line indent s = .ok j t → i < j ∧ j ≤ stop) ∧
      DispatchesInside cap lines budget i stop line indent) ∧
    (∀ s r t, range cap lines budget start stop level s = .ok r t →
      start ≤ r ∧ r ≤ stop ∧
      (r = stop ∨ ∃ line, lines.lineAt r = .ok line ∧ Line.isFiller line = false ∧
        Line.indent line < level) ∧
      (level = 0 → r = stop)) ∧
    (∀ (ask ask' : Call.Answers) (a : Call), ask.Progresses →
      (∀ b : Call, b.size cap < a.size cap → ask b = ask' b) →
      Call.unfold cap lines ask a = Call.unfold cap lines ask' a) ∧
    (∀ (ask : Call.Answers) (a : Call) (n : Nat), a.size cap < n →
      (Call.unfold cap lines)^[n] ask a = Call.standard cap lines a) ∧
    ∀ ask : Call.Answers, Call.unfold cap lines ask = ask ↔ ask = Call.standard cap lines := by
  refine ⟨?_, ?_, ?_, ?_, Call.unfold_eq_self_iff cap lines⟩
  · intro i line indent _ hi
    refine ⟨?_, dispatchesInside cap budget hi hs line indent⟩
    intro s j t hrun
    exact statement_bounds hrun (by omega)
  · intro s r t hrun
    obtain ⟨hfirst, hlast, hend⟩ := range_stops hstart hs hrun
    refine ⟨hfirst, hlast, hend, ?_⟩
    rintro rfl
    rcases hend with hend | ⟨line, -, -, hshallow⟩
    · exact hend
    · omega
  · intro ask ask' a hask h
    exact Call.unfold_congr cap lines hask h
  · intro ask a n h
    exact Call.iterate_unfold cap lines ask h

/-- A block, and a line that is shallower than its header. -/
def dedented : Lines := #["  while 'a' == 'a':".toList, "    go".toList, "back".toList]

theorem dedented_stops :
    range (1 : Int) dedented nestingLimit 0 3 2 {} = .ok 2 {} ∧
    (∃ line, dedented.lineAt 2 = .ok line ∧ Line.isFiller line = false ∧
      (Line.indent line : Int) < 2) ∧
    DispatchesInside (1 : Int) dedented nestingLimit 0 3 "while 'a' == 'a':".toList 2 := by
  obtain ⟨hstatement, hrange, -, hsettled, -⟩ :=
    range_progress (1 : Int) dedented nestingLimit 0 3 2 (by decide) (by decide)
  -- the run is settled after sixteen steps, whatever is answered below
  have hrun : range (1 : Int) dedented nestingLimit 0 3 2 {} = .ok 2 {} :=
    (congrFun (hsettled (fun _ => throw .nestingTooDeep) (.range nestingLimit 0 3 2) 16
      (by decide)) {}).symm.trans rfl
  obtain ⟨-, -, hend, -⟩ := hrange _ _ _ hrun
  refine ⟨hrun, hend.resolve_left (by decide), ?_⟩
  exact (hstatement 0 "while 'a' == 'a':".toList 2 (by decide) (by decide)).2

end Run

end LineScript
