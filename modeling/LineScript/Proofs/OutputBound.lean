import LineScript.Program
import LineScript.Proofs.Nesting
import Mathlib.Algebra.BigOperators.Intervals
import Mathlib.Algebra.BigOperators.Ring.Finset
import Mathlib.Algebra.Order.BigOperators.Group.Finset

set_option autoImplicit false

/-!
# How much a program prints

A range comes by each of its lines at most once, and a block runs at most as often
as the cap allows.  So a line that prints does so at most once for every way of
counting off the runs of the loops in whose blocks it lies.

Proved: a tree prints at most as often as its shape and the cap allow
(`Tree.run_printsAtMost`), the shape of a tree allows no more than the nesting of the
lines it was read from (`Tree.printBound_ofLines_le`), and hence a program prints at
most the sum, over the lines that print, of the cap to the power of the loops around
the line (`output_bounded_by_loops`).
-/

namespace LineScript

/-! ## Actions -/

namespace Run

variable {α β : Type}

/-- The action adds at most so many entries to the output, also if it faults. -/
def PrintsAtMost (k : Nat) (m : Run α) : Prop :=
  ∀ s, (ending m s).1.output.size ≤ s.output.size + k

theorem printsAtMost_pure (a : α) : PrintsAtMost 0 (pure a : Run α) :=
  fun _ => Nat.le_refl _

theorem printsAtMost_throw (f : Fault) : PrintsAtMost 0 (throw f : Run α) :=
  fun _ => Nat.le_refl _

theorem PrintsAtMost.mono {k l : Nat} {m : Run α} (h : PrintsAtMost k m) (hkl : k ≤ l) :
    PrintsAtMost l m :=
  fun s => Nat.le_trans (h s) (Nat.add_le_add_left hkl _)

theorem printsAtMost_of_proceed {m : Run α} {result : State → Except Fault β} {value : β → α}
    {next : State → β → State} {k : Nat}
    (hm : ∀ s, m s = proceed s (fun b => .ok (value b) (next s b)) (result s))
    (hnext : ∀ s b, (next s b).output.size ≤ s.output.size + k) : PrintsAtMost k m := by
  intro s
  rcases ending_of_proceed (hm s) with ⟨b, -, hend⟩ | ⟨f, -, hend⟩
  · rw [hend]
    exact hnext s b
  · rw [hend]
    exact Nat.le_add_right _ _

/-- What a sequence prints adds up. -/
theorem PrintsAtMost.bind {k l : Nat} {m : Run α} {f : α → Run β} (hm : PrintsAtMost k m)
    (hf : ∀ a, PrintsAtMost l (f a)) : PrintsAtMost (k + l) (m >>= f) := by
  intro s
  have hfirst := hm s
  cases h : m s with
  | ok a t =>
    have hrest := hf a t
    rw [ending_of_ok h] at hfirst
    rw [ending_bind_of_ok h]
    dsimp only at hfirst
    omega
  | error e t =>
    rw [ending_of_error h] at hfirst
    rw [ending_bind_of_error h]
    dsimp only at hfirst ⊢
    omega

/-- What a loop prints is multiplied by its runs. -/
theorem PrintsAtMost.whileUpTo {k : Nat} {test : Run Bool} {body : Run Unit}
    (htest : PrintsAtMost 0 test) (hbody : PrintsAtMost k body) (n : Nat) :
    PrintsAtMost (n * k) (whileUpTo test body n) := by
  induction n with
  | zero =>
    rw [Nat.zero_mul]
    exact printsAtMost_pure ()
  | succ n ih =>
    rw [Nat.succ_mul, Nat.add_comm, ← Nat.zero_add (k + n * k)]
    apply htest.bind
    intro b
    cases b with
    | false => exact (printsAtMost_pure ()).mono (Nat.zero_le _)
    | true => exact hbody.bind fun _ => ih

theorem assign_printsAtMost (budget : Nat) (a : Assignment) :
    PrintsAtMost 0 (assign budget a) :=
  printsAtMost_of_proceed (assign_apply budget a) fun _ _ => Nat.le_refl _

theorem print_printsAtMost (budget : Nat) (argument : Option Text) :
    PrintsAtMost 1 (print budget argument) := by
  cases argument with
  | none => exact (printsAtMost_pure ()).mono (Nat.zero_le 1)
  | some argument =>
    apply printsAtMost_of_proceed (print_apply budget argument)
    intro s entry
    exact Nat.le_of_eq (Array.size_push entry)

theorem holds_printsAtMost (budget : Nat) (condition : Text) :
    PrintsAtMost 0 (holds budget condition) :=
  printsAtMost_of_proceed (holds_apply budget condition) fun _ _ => Nat.le_refl _

end Run

/-! ## Trees -/

/-- The block is a loop. -/
def BlockKind.isLoop (kind : BlockKind) : Bool := kind = .repeated

namespace Tree

/-- How often a tree can print, if each of its loops can run so many times. -/
def printBound (runs : Nat) : Tree → Nat
  | .done => 0
  | .assign _ rest => rest.printBound runs
  | .print _ rest => rest.printBound runs + 1
  | .block kind _ body rest => kind.times runs * body.printBound runs + rest.printBound runs
  | .ignored rest => rest.printBound runs

theorem nested_printsAtMost {k : Nat} {body : Nat → Run Unit}
    (h : ∀ left, Run.PrintsAtMost k (body left)) (budget : Nat) :
    Run.PrintsAtMost k (nested budget body) := by
  unfold nested
  split
  · exact (Run.printsAtMost_throw _).mono (Nat.zero_le k)
  · exact h _

theorem perform_printsAtMost {cap : Int} {runs k : Nat} (hcap : cap.toNat ≤ runs)
    {test : Run Bool} {body : Run Unit} (htest : Run.PrintsAtMost 0 test)
    (hbody : Run.PrintsAtMost k body) (kind : BlockKind) :
    Run.PrintsAtMost (kind.times runs * k) (perform cap test body kind) := by
  cases kind with
  | once =>
    rw [BlockKind.times, Nat.one_mul, ← Nat.zero_add k]
    apply htest.bind
    intro b
    cases b with
    | false => exact (Run.printsAtMost_pure ()).mono (Nat.zero_le k)
    | true => exact hbody
  | repeated => exact (htest.whileUpTo hbody cap.toNat).mono (Nat.mul_le_mul_right k hcap)

/-- A tree prints no more than its shape allows. -/
theorem run_printsAtMost {cap : Int} {runs : Nat} (hcap : cap.toNat ≤ runs) (t : Tree)
    (budget : Nat) : Run.PrintsAtMost (t.printBound runs) (t.run cap budget) := by
  induction t generalizing budget with
  | done => exact Run.printsAtMost_pure ()
  | assign a rest ih =>
    rw [printBound, ← Nat.zero_add (rest.printBound runs)]
    exact (Run.assign_printsAtMost budget a).bind fun _ => ih budget
  | print argument rest ih =>
    rw [printBound, Nat.add_comm]
    exact (Run.print_printsAtMost budget argument).bind fun _ => ih budget
  | block kind condition body rest ihbody ihrest =>
    have hblock := perform_printsAtMost hcap (Run.holds_printsAtMost budget condition)
      (nested_printsAtMost ihbody budget) kind
    exact hblock.bind fun _ => ihrest budget
  | ignored rest ih => exact ih budget

end Tree

/-! ## Lines -/

/-- The line is a print statement. -/
def Line.prints (line : Text) : Bool :=
  match Statement.ofLine (Text.strip line) with
  | .print _ => true
  | _ => false

namespace Lines

/-- The line at `p` is a print statement. -/
def printsAt (lines : Lines) (p : Nat) : Bool :=
  match lines.lineAt p with
  | .ok line => Line.prints line
  | .error _ => false

/-- How often the line at `p` can print, if the loops from `i` on are counted. -/
def printsOf (lines : Lines) (runs i p : Nat) : Nat :=
  if lines.printsAt p then runs ^ lines.nestingFrom BlockKind.isLoop i p else 0

/-- How often the lines of `[i, stop)` can print. -/
def printBound (lines : Lines) (runs i stop : Nat) : Nat :=
  ∑ p ∈ Finset.Ico i stop, lines.printsOf runs i p

variable (lines : Lines) {runs : Nat} (hruns : 0 < runs)

theorem printsOf_self {i : Nat} (h : lines.printsAt i = true) : lines.printsOf runs i i = 1 := by
  rw [printsOf, if_pos h, nestingFrom, Nat.sub_self]
  exact Nat.pow_zero runs

theorem printBound_of_lt {i stop : Nat} (hi : i < stop) :
    lines.printBound runs i stop =
      lines.printsOf runs i i + ∑ p ∈ Finset.Ico (i + 1) stop, lines.printsOf runs i p :=
  Finset.sum_eq_sum_Ico_succ_bot hi _

include hruns

/-- Counting from a later line on, a line prints no more often. -/
theorem printsOf_anti {i j : Nat} (h : i ≤ j) (p : Nat) :
    lines.printsOf runs j p ≤ lines.printsOf runs i p := by
  unfold printsOf
  split
  · exact Nat.pow_le_pow_right hruns (nestingFrom_anti lines BlockKind.isLoop h)
  · exact Nat.le_refl 0

/-- A header multiplies what the lines of its block print by the runs of the block. -/
theorem times_printsOf_le {i stop next p : Nat} {line : Text} {kind : BlockKind}
    (hline : lines.lineAt i = .ok line) (hopens : Line.opens? line = some kind)
    (hs : stop ≤ lines.size) (hstop : lines.blockStop i (Line.indent line) stop = .ok next)
    (hi : i < stop) (hip : i < p) (hp : p < next) :
    kind.times runs * lines.printsOf runs (i + 1) p ≤ lines.printsOf runs i p := by
  cases kind with
  | once =>
    rw [BlockKind.times, Nat.one_mul]
    exact printsOf_anti lines hruns (Nat.le_succ i) p
  | repeated =>
    have hnesting := nestingFrom_header lines BlockKind.isLoop hline hopens rfl hs hstop hi hip hp
    rw [BlockKind.times, printsOf, printsOf, hnesting]
    split
    · rw [Nat.pow_succ, Nat.mul_comm]
    · rw [Nat.mul_zero]

theorem printBound_le_of_le {i j : Nat} (h : i ≤ j) (stop : Nat) :
    lines.printBound runs j stop ≤ ∑ p ∈ Finset.Ico j stop, lines.printsOf runs i p :=
  Finset.sum_le_sum fun p _ => printsOf_anti lines hruns h p

/-- The line at the front of a range adds what it prints itself. -/
theorem printBound_succ_le {i stop : Nat} (hi : i < stop) :
    lines.printBound runs (i + 1) stop + lines.printsOf runs i i ≤
      lines.printBound runs i stop := by
  have hrest := printBound_le_of_le lines hruns (show i ≤ i + 1 by omega) stop
  rw [printBound_of_lt lines hi]
  omega

/-- A block at the front of a range adds what its lines print in all its runs. -/
theorem printBound_block_le {i stop next : Nat} {line : Text} {kind : BlockKind}
    (hline : lines.lineAt i = .ok line) (hopens : Line.opens? line = some kind)
    (hs : stop ≤ lines.size) (hstop : lines.blockStop i (Line.indent line) stop = .ok next)
    (hi : i < stop) (hlt : i < next) (hle : next ≤ stop) :
    kind.times runs * lines.printBound runs (i + 1) next + lines.printBound runs next stop ≤
      lines.printBound runs i stop := by
  have hbody : kind.times runs * lines.printBound runs (i + 1) next ≤
      ∑ p ∈ Finset.Ico (i + 1) next, lines.printsOf runs i p := by
    rw [printBound, Finset.mul_sum]
    refine Finset.sum_le_sum fun p hp => ?_
    obtain ⟨hip, hpn⟩ := Finset.mem_Ico.mp hp
    exact times_printsOf_le lines hruns hline hopens hs hstop hi hip hpn
  have hafter := printBound_le_of_le lines hruns (Nat.le_of_lt hlt) stop
  have hparts := Finset.sum_Ico_consecutive (lines.printsOf runs i)
    (show i + 1 ≤ next from hlt) hle
  rw [printBound_of_lt lines hi]
  omega

end Lines

/-- The shape of a tree allows no more than the nesting of its lines. -/
theorem Tree.printBound_ofLines_le (lines : Lines) {runs : Nat} (hruns : 0 < runs) (level : Int)
    {i stop : Nat} (hs : stop ≤ lines.size) :
    (ofLines level (lines.slice i stop)).printBound runs ≤ lines.printBound runs i stop := by
  generalize hl : lines.slice i stop = l
  induction level, l using ofLines_induction generalizing i stop with
  | nil level =>
    rw [ofLines]
    exact Nat.zero_le _
  | filler level line rest hfiller ih =>
    obtain ⟨hi, -, hrest⟩ := Lines.of_slice_eq_cons lines hs hl
    have hsucc := Lines.printBound_succ_le lines hruns hi
    rw [ofLines_of_filler _ hfiller]
    exact Nat.le_trans (ih hs hrest) (by omega)
  | shallower level line rest hfiller hlt =>
    rw [ofLines_of_shallower _ hfiller hlt]
    exact Nat.zero_le _
  | deeper level line rest hfiller hgt ih =>
    obtain ⟨hi, -, hrest⟩ := Lines.of_slice_eq_cons lines hs hl
    have hsucc := Lines.printBound_succ_le lines hruns hi
    rw [ofLines_of_deeper _ hfiller hgt]
    exact Nat.le_trans (ih hs hrest) (by omega)
  | statement level line rest hfiller heq ih ihbody ihafter =>
    obtain ⟨hi, hline, hrest⟩ := Lines.of_slice_eq_cons lines hs hl
    have hsucc := Lines.printBound_succ_le lines hruns hi
    have hnext := ih hs hrest
    rw [ofLines_of_level _ hfiller heq]
    cases hst : Statement.ofLine (Text.strip line) with
    | assign a => exact Nat.le_trans hnext (by omega)
    | ignored => exact Nat.le_trans hnext (by omega)
    | print argument =>
      have hprints : lines.printsAt i = true := by
        rw [Lines.printsAt, hline]
        simp only [Line.prints, hst]
      rw [Lines.printsOf_self lines hprints] at hsucc
      exact Nat.le_trans (Nat.succ_le_succ hnext) hsucc
    | block kind condition =>
      obtain ⟨next, hstop, hlt, hle, hblock, hafter⟩ :=
        Lines.exists_blockStop lines (Line.indent line) hi hs
      rw [hrest] at hblock hafter
      have hopens := Line.opens?_of_block hfiller hst
      have hbody : (ofBlock (Lines.block (Line.indent line) rest)).printBound runs ≤
          lines.printBound runs (i + 1) next := by
        rw [ofBlock]
        split
        · exact Nat.zero_le _
        · rename_i inner _
          exact ihbody inner (by omega) hblock
      exact Nat.le_trans
        (Nat.add_le_add (Nat.mul_le_mul_left _ hbody) (ihafter hs hafter))
        (Lines.printBound_block_le lines hruns hline hopens hs hstop hi hlt hle)

/-- A run of all the lines prints no more than their nesting allows. -/
theorem Lines.endingFrom_printsAtMost (cap : Int) {runs : Nat} (hruns : 0 < runs)
    (hcap : cap.toNat ≤ runs) (budget : Nat) (lines : Lines) (s : State) :
    (lines.endingFrom cap budget s).1.output.size ≤
      s.output.size + lines.printBound runs 0 lines.size := by
  have htree := Tree.run_printsAtMost hcap (Tree.ofLines 0 lines.toList) budget s
  have hlines : (Tree.ofLines 0 (lines.slice 0 lines.size)).printBound runs ≤
      lines.printBound runs 0 lines.size :=
    Tree.printBound_ofLines_le lines hruns 0 (Nat.le_refl _)
  rw [slice_zero_size] at hlines
  rw [endingFrom_eq]
  omega

/-- However a program ends, the entries that it has printed are at most the sum, over the
lines that print, of the cap (or one, if that is more) to the power of the loops in whose
blocks the line lies. -/
theorem output_bounded_by_loops (cap : Int) (code : Text) :
    (Run.ending (runLines cap (.ofText code)) {}).1.output.size ≤
      ∑ p ∈ Finset.range (Lines.ofText code).size with (Lines.ofText code).printsAt p,
        (max 1 cap).toNat ^ (Lines.ofText code).nesting BlockKind.isLoop p := by
  have hbound := Lines.endingFrom_printsAtMost cap (show 0 < (max 1 cap).toNat by omega)
    (show cap.toNat ≤ (max 1 cap).toNat by omega) nestingLimit (.ofText code) {}
  have hsum : (Lines.ofText code).printBound (max 1 cap).toNat 0 (Lines.ofText code).size =
      ∑ p ∈ Finset.range (Lines.ofText code).size with (Lines.ofText code).printsAt p,
        (max 1 cap).toNat ^ (Lines.ofText code).nesting BlockKind.isLoop p := by
    rw [Lines.printBound, Finset.sum_filter, Finset.range_eq_Ico]
    simp only [Lines.printsOf, Lines.nesting_eq]
  rw [← hsum]
  exact Nat.le_trans hbound (Nat.le_of_eq (Nat.zero_add _))

end LineScript
