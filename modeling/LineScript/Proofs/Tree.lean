import LineScript.Proofs.Block
import LineScript.Proofs.Ending

set_option autoImplicit false

/-!
# Statement trees

A program can be read before it is run: the statements of a range, each block
with the statements of its own, are a tree that depends on the lines alone.
Running the tree is ordinary structural recursion, with no cursor, no indents and
no search for the end of a block.

Proved: a cursor that walks over a range does exactly what the tree of the range
does, from every state, under every cap and with every budget: it ends in the same
state, with the same fault or without one (`range_refines_tree`).  What is proved of
trees elsewhere follows the reading of a tree line by line (`Tree.ofLines_induction`).
-/

namespace LineScript

/-! ## Trees -/

/-- The statements of a range in their order, each block with its own. -/
inductive Tree where
  /-- no statement is left -/
  | done
  | assign (a : Assignment) (rest : Tree)
  | print (argument : Option Text) (rest : Tree)
  | block (kind : BlockKind) (condition : Text) (body rest : Tree)
  | ignored (rest : Tree)
  deriving DecidableEq, Repr, Inhabited

/-- How often a block can run, if a loop can run so many times. -/
def BlockKind.times (runs : Nat) : BlockKind → Nat
  | .once => 1
  | .repeated => runs

namespace Tree

/-- The tree of a list of lines at a level.  Lines that do not count and lines
that are deeper contribute nothing, and the first shallower line ends the tree.  A
block is read at the indent of its own first significant line. -/
def ofLines (level : Int) : List Text → Tree
  | [] => .done
  | line :: rest =>
    if Line.isFiller line then ofLines level rest
    else if Line.indent line < level then .done
    else if level < Line.indent line then ofLines level rest
    else match Statement.ofLine (Text.strip line) with
      | .assign a => .assign a (ofLines level rest)
      | .print argument => .print argument (ofLines level rest)
      | .ignored => .ignored (ofLines level rest)
      | .block kind condition =>
        .block kind condition
          (match Lines.level? (Lines.block (Line.indent line) rest) with
            | none => .done
            | some inner => ofLines inner (Lines.block (Line.indent line) rest))
          (ofLines level (Lines.afterBlock (Line.indent line) rest))
termination_by lines => lines.length
decreasing_by
  · exact Nat.lt_succ_self _
  · exact Nat.lt_succ_self _
  · exact Nat.lt_succ_self _
  · exact Nat.lt_succ_self _
  · exact Nat.lt_succ_self _
  · exact Nat.lt_succ_of_le (Lines.length_block_le _ _)
  · exact Nat.lt_succ_of_le (Lines.length_afterBlock_le _ _)

/-- The tree of the lines of a block, read at the block's own level. -/
def ofBlock (lines : List Text) : Tree :=
  match Lines.level? lines with
  | none => .done
  | some inner => ofLines inner lines

/-- Run what is inside a block, if the budget allows one more. -/
def nested (budget : Nat) (body : Nat → Run Unit) : Run Unit :=
  if budget < Run.blockCost then throw .nestingTooDeep else body (budget - Run.blockCost)

/-- Run a body once if the test holds, or as long as it holds, up to the cap. -/
def perform (cap : Int) (test : Run Bool) (body : Run Unit) : BlockKind → Run Unit
  | .once => do if ← test then body
  | .repeated => Run.whileUpTo test body cap.toNat

/-- Run the statements of a tree. -/
def run (cap : Int) : Nat → Tree → Run Unit
  | _, .done => pure ()
  | budget, .assign a rest => do
    Run.assign budget a
    run cap budget rest
  | budget, .print argument rest => do
    Run.print budget argument
    run cap budget rest
  | budget, .block kind condition body rest => do
    perform cap (Run.holds budget condition) (nested budget fun left => run cap left body) kind
    run cap budget rest
  | budget, .ignored rest => run cap budget rest

/-! ## Equations -/

theorem ofLines_cons (level : Int) (line : Text) (rest : List Text) :
    ofLines level (line :: rest) =
      if Line.isFiller line then ofLines level rest
      else if Line.indent line < level then .done
      else if level < Line.indent line then ofLines level rest
      else match Statement.ofLine (Text.strip line) with
        | .assign a => .assign a (ofLines level rest)
        | .print argument => .print argument (ofLines level rest)
        | .ignored => .ignored (ofLines level rest)
        | .block kind condition =>
          .block kind condition (ofBlock (Lines.block (Line.indent line) rest))
            (ofLines level (Lines.afterBlock (Line.indent line) rest)) := by
  rw [ofLines]
  rfl

/-- A tree that starts with a statement.  A block has a tree of its own and is
followed by `after`, any other statement by `rest`. -/
def first (st : Statement) (rest body after : Tree) : Tree :=
  match st with
  | .assign a => .assign a rest
  | .print argument => .print argument rest
  | .ignored => .ignored rest
  | .block kind condition => .block kind condition body after

section

variable {level : Int} {line : Text} (rest : List Text)

theorem ofLines_of_filler (h : Line.isFiller line = true) :
    ofLines level (line :: rest) = ofLines level rest := by
  rw [ofLines_cons, if_pos h]

theorem ofLines_of_shallower (hfiller : Line.isFiller line = false)
    (h : Line.indent line < level) : ofLines level (line :: rest) = .done := by
  rw [ofLines_cons, hfiller, if_neg Bool.false_ne_true, if_pos h]

theorem ofLines_of_deeper (hfiller : Line.isFiller line = false)
    (h : level < Line.indent line) : ofLines level (line :: rest) = ofLines level rest := by
  rw [ofLines_cons, hfiller, if_neg Bool.false_ne_true, if_neg (by omega), if_pos h]

/-- A line at the level is the first statement of the tree. -/
theorem ofLines_of_level (hfiller : Line.isFiller line = false)
    (h : (Line.indent line : Int) = level) :
    ofLines level (line :: rest) =
      first (Statement.ofLine (Text.strip line)) (ofLines level rest)
        (ofBlock (Lines.block (Line.indent line) rest))
        (ofLines level (Lines.afterBlock (Line.indent line) rest)) := by
  rw [ofLines_cons, hfiller, if_neg Bool.false_ne_true, if_neg (by omega), if_neg (by omega)]
  cases Statement.ofLine (Text.strip line) with
  | assign a => rfl
  | print argument => rfl
  | ignored => rfl
  | block kind condition => rfl

end

/-- Induction along the reading of a tree: a line is passed over, ends the tree, or
is a statement, after which the lines of its block and the lines behind it are
shorter ranges. -/
theorem ofLines_induction {motive : Int → List Text → Prop}
    (nil : ∀ level, motive level [])
    (filler : ∀ level line rest, Line.isFiller line = true → motive level rest →
      motive level (line :: rest))
    (shallower : ∀ (level : Int) (line : Text) (rest : List Text),
      Line.isFiller line = false → Line.indent line < level → motive level (line :: rest))
    (deeper : ∀ (level : Int) (line : Text) (rest : List Text),
      Line.isFiller line = false → level < Line.indent line → motive level rest →
      motive level (line :: rest))
    (statement : ∀ (level : Int) (line : Text) (rest : List Text),
      Line.isFiller line = false → (Line.indent line : Int) = level → motive level rest →
      (∀ inner : Nat, motive inner (Lines.block (Line.indent line) rest)) →
      motive level (Lines.afterBlock (Line.indent line) rest) → motive level (line :: rest))
    (level : Int) (lines : List Text) : motive level lines := by
  induction hn : lines.length using Nat.strongRecOn generalizing level lines with
  | _ n ih =>
    cases lines with
    | nil => exact nil level
    | cons line rest =>
      have hshorter : ∀ (k : Int) (l : List Text), l.length ≤ rest.length → motive k l := by
        intro k l hl
        rw [List.length_cons] at hn
        exact ih l.length (by omega) k l rfl
      cases hfiller : Line.isFiller line with
      | true => exact filler level line rest hfiller (hshorter level rest (Nat.le_refl _))
      | false =>
        rcases Int.lt_trichotomy (Line.indent line) level with hlt | heq | hgt
        · exact shallower level line rest hfiller hlt
        · exact statement level line rest hfiller heq (hshorter level rest (Nat.le_refl _))
            (fun inner => hshorter inner _ (Lines.length_block_le _ _))
            (hshorter level _ (Lines.length_afterBlock_le _ _))
        · exact deeper level line rest hfiller hgt (hshorter level rest (Nat.le_refl _))

end Tree

namespace Run

/-! ## The cursor and the tree -/

theorem block_eq (cap : Int) (budget : Nat) (kind : BlockKind) (condition : Text)
    (body : Nat → Run Unit) :
    block cap budget kind condition body =
      Tree.perform cap (holds budget condition) (Tree.nested budget body) kind := by
  cases kind with
  | once =>
    simp only [block, runs, whileUpTo, Tree.perform]
    congr 1
    funext b
    cases b with
    | false => rfl
    | true => exact bind_pure_unit
  | repeated => rfl

/-- A block does what its tree does, if its range does at every level. -/
theorem body_eq_tree_of_range (cap : Int) (lines : Lines) (budget : Nat) {start stop : Nat}
    (hle : start ≤ stop) (hs : stop ≤ lines.size)
    (hrange : ∀ level : Int, discard (range cap lines budget start stop level) =
      (Tree.ofLines level (lines.slice start stop)).run cap budget) :
    body cap lines budget start stop =
      (Tree.ofBlock (lines.slice start stop)).run cap budget := by
  rw [body, enter, Lines.bodyIndent_eq lines hle hs, Tree.ofBlock]
  cases Lines.level? (lines.slice start stop) with
  | none => rfl
  | some level => exact hrange level

theorem range_eq_tree (cap : Int) (lines : Lines) (budget i stop : Nat) (level : Int)
    (hs : stop ≤ lines.size) :
    discard (range cap lines budget i stop level) =
      (Tree.ofLines level (lines.slice i stop)).run cap budget := by
  -- every step leaves fewer lines, and a block has fewer lines than its range
  induction hn : stop - i using Nat.strongRecOn generalizing budget i stop level with
  | _ n ih =>
    rw [range_eq]
    by_cases hi : i < stop
    · obtain ⟨line, hline, hslice⟩ := Lines.slice_eq_cons lines hi hs
      have hrest : discard (range cap lines budget ((i : Int) + 1) stop level) =
          (Tree.ofLines level (lines.slice (i + 1) stop)).run cap budget :=
        ih (stop - (i + 1)) (by omega) budget (i + 1) stop level hs rfl
      rw [if_pos (by omega), hline, hslice, Tree.ofLines_cons]
      simp only [ofExcept, pure_bind]
      split
      · exact hrest
      · split
        · rfl
        · split
          · exact hrest
          · unfold statement
            cases Statement.ofLine (Text.strip line) with
            | assign a =>
              simp only [bind_assoc, pure_bind, discard_bind, Tree.run, hrest]
            | print argument =>
              simp only [bind_assoc, pure_bind, discard_bind, Tree.run, hrest]
            | ignored => exact hrest
            | block kind condition =>
              obtain ⟨next, hstop, hlt, hle, hblock, hafter⟩ :=
                Lines.exists_blockStop lines (Line.indent line) hi hs
              have hbody : ∀ left, body cap lines left ((i : Int) + 1) next =
                  (Tree.ofBlock (Lines.block (Line.indent line)
                    (lines.slice (i + 1) stop))).run cap left := by
                intro left
                rw [← hblock]
                exact body_eq_tree_of_range cap lines left hlt (by omega) fun inner =>
                  ih (next - (i + 1)) (by omega) left (i + 1) next inner (by omega) rfl
              have hnext := ih (stop - next) (by omega) budget next stop level hs rfl
              simp only [hstop, ofExcept, pure_bind, bind_assoc, discard_bind, hbody, block_eq]
              rw [hnext, hafter, Tree.run]
    · rw [if_neg (by omega), Lines.slice_of_le lines (by omega), Tree.ofLines]
      rfl

/-- A range inside the program ends as the tree of its lines does. -/
theorem range_refines_tree (cap : Int) (lines : Lines) (budget start stop : Nat) (level : Int)
    (hs : stop ≤ lines.size) (s : State) :
    ending (range cap lines budget start stop level) s =
      ending ((Tree.ofLines level (lines.slice start stop)).run cap budget) s := by
  rw [← range_eq_tree cap lines budget start stop level hs, ending_discard]

/-- A loop whose body has a comment, a dedent and a line that is too deep, and whose
range leaves the last line out. -/
def sampleLines : Lines :=
  #["while a < 2:".toList, "    # count".toList, "    a = a + 1".toList,
    "        print('deep')".toList, "  print('dedent')".toList, "print(a)".toList]

theorem sampleLines_refines : 5 ≤ sampleLines.size ∧
    ending (range (1000 : Int) sampleLines nestingLimit 0 5 0) {} =
      ending ((Tree.ofLines 0 (sampleLines.slice 0 5)).run 1000 nestingLimit) {} :=
  ⟨by decide, range_refines_tree 1000 sampleLines nestingLimit 0 5 0 (by decide) {}⟩

end Run

/-! ## All the lines -/

/-- How a run of all the lines at the outermost indent ends. -/
def Lines.endingFrom (cap : LoopCap) (budget : Nat) (lines : Lines) (s : State) :
    State × Option Fault :=
  Run.ending (Run.range cap lines budget 0 lines.size 0) s

/-- All the lines end as their tree does. -/
theorem Lines.endingFrom_eq (cap : Int) (budget : Nat) (lines : Lines) (s : State) :
    lines.endingFrom cap budget s =
      Run.ending ((Tree.ofLines 0 lines.toList).run cap budget) s := by
  have htree := Run.range_eq_tree cap lines budget 0 lines.size 0 (Nat.le_refl _)
  rw [slice_zero_size] at htree
  rw [← htree, Run.ending_discard]
  rfl

end LineScript
