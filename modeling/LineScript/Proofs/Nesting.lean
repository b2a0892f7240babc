import LineScript.Proofs.Contract

set_option autoImplicit false

/-!
# How deep a line lies

A line lies in the block of a header before it if the block ends after the line.
The nesting of a line counts the headers of some kinds in whose blocks it lies; it
is read off the program's text, whether or not the headers are ever reached.

Proved: the blocks of a tree nest at most one deeper than the lines it was read
from (`depth_ofLines_le`), the one being a block that has no line.
-/

namespace LineScript

/-- The kind of block that a significant line opens, if it opens one. -/
def Line.opens? (line : Text) : Option BlockKind :=
  if Line.isFiller line then none
  else match Statement.ofLine (Text.strip line) with
    | .block kind _ => some kind
    | _ => none

theorem Line.opens?_of_block {line condition : Text} {kind : BlockKind}
    (hfiller : Line.isFiller line = false)
    (hst : Statement.ofLine (Text.strip line) = .block kind condition) :
    Line.opens? line = some kind := by
  rw [Line.opens?, hfiller, if_neg Bool.false_ne_true, hst]

namespace Lines

/-- The line at `q` is a header of one of the kinds, and its block ends after `p`. -/
def encloses (lines : Lines) (kinds : BlockKind → Bool) (q p : Nat) : Bool :=
  match lines.lineAt q with
  | .error _ => false
  | .ok line =>
    (Line.opens? line).any kinds &&
      match lines.blockStop q (Line.indent line) lines.size with
      | .error _ => false
      | .ok next => decide ((p : Int) < next)

/-- In how many blocks of the kinds the line at `p` lies, if only the headers from
`i` on are counted. -/
def nestingFrom (lines : Lines) (kinds : BlockKind → Bool) (i p : Nat) : Nat :=
  (List.range' i (p - i)).countP fun q => lines.encloses kinds q p

/-- In how many blocks of the kinds the line at `p` lies. -/
def nesting (lines : Lines) (kinds : BlockKind → Bool) (p : Nat) : Nat :=
  (List.range p).countP fun q => lines.encloses kinds q p

theorem nesting_eq (lines : Lines) (kinds : BlockKind → Bool) (p : Nat) :
    lines.nesting kinds p = lines.nestingFrom kinds 0 p := by
  rw [nesting, nestingFrom, List.range_eq_range', Nat.sub_zero]

variable (lines : Lines) (kinds : BlockKind → Bool)

/-- A header counts for the lines of its block. -/
theorem nestingFrom_succ {i p : Nat} (h : i < p) :
    lines.nestingFrom kinds i p =
      lines.nestingFrom kinds (i + 1) p + if lines.encloses kinds i p then 1 else 0 := by
  rw [nestingFrom, nestingFrom, show p - i = p - (i + 1) + 1 by omega, List.range'_succ,
    List.countP_cons]

/-- Counting from a later line on counts no more headers. -/
theorem nestingFrom_anti {i j p : Nat} (h : i ≤ j) :
    lines.nestingFrom kinds j p ≤ lines.nestingFrom kinds i p := by
  induction h with
  | refl => exact Nat.le_refl _
  | @step j _ ih =>
    show lines.nestingFrom kinds (j + 1) p ≤ _
    by_cases hj : j < p
    · have := nestingFrom_succ lines kinds hj
      omega
    · have hzero : lines.nestingFrom kinds (j + 1) p = 0 := by
        rw [nestingFrom, show p - (j + 1) = 0 by omega]
        rfl
      omega

/-- The lines that a range gives to a header lie in the header's block. -/
theorem encloses_of_lt {i stop p : Nat} {line : Text} {kind : BlockKind}
    (hline : lines.lineAt i = .ok line) (hopens : Line.opens? line = some kind)
    (hkind : kinds kind = true) (hi : i < stop) (hs : stop ≤ lines.size)
    (hp : p < i + 1 + (block (Line.indent line) (lines.slice (i + 1) stop)).length) :
    lines.encloses kinds i p = true := by
  have hslice : lines.slice (i + 1) stop =
      (lines.slice (i + 1) lines.size).take (stop - (i + 1)) := by
    rw [← slice_take lines (show i + 1 + (stop - (i + 1)) ≤ lines.size by omega)]
    congr 1
    omega
  have hblock : (block (Line.indent line) (lines.slice (i + 1) stop)).length ≤
      (block (Line.indent line) (lines.slice (i + 1) lines.size)).length := by
    rw [hslice, block, block, ← List.take_takeWhile, List.length_take]
    exact Nat.min_le_right _ _
  unfold encloses
  rw [hline]
  simp only [hopens, Option.any_some, hkind, Bool.true_and,
    blockStop_eq lines (Line.indent line) (show i < lines.size by omega) (Nat.le_refl _)]
  exact decide_eq_true (by omega)

/-- A line of a header's block lies one deeper if the header counts too. -/
theorem nestingFrom_header {i stop next p : Nat} {line : Text} {kind : BlockKind}
    (hline : lines.lineAt i = .ok line) (hopens : Line.opens? line = some kind)
    (hkind : kinds kind = true) (hs : stop ≤ lines.size)
    (hstop : lines.blockStop i (Line.indent line) stop = .ok next) (hi : i < stop)
    (hip : i < p) (hp : p < next) :
    lines.nestingFrom kinds i p = lines.nestingFrom kinds (i + 1) p + 1 := by
  rw [blockStop_eq lines _ hi hs] at hstop
  have hnext := Int.ofNat.inj (Except.ok.inj hstop)
  have henc := encloses_of_lt lines kinds hline hopens hkind hi hs (show p < _ by omega)
  rw [nestingFrom_succ lines kinds hip, if_pos henc]

/-- The lines of `[i, stop)` lie in at most `n` blocks that open in it. -/
def NestsWithin (i stop n : Nat) : Prop :=
  ∀ p, i ≤ p → p < stop → lines.nestingFrom kinds i p ≤ n

variable {lines kinds}

/-- The bound holds of the lines after some. -/
theorem NestsWithin.later {i j stop n : Nat} (h : NestsWithin lines kinds i stop n)
    (hij : i ≤ j) : NestsWithin lines kinds j stop n := by
  intro p hjp hp
  exact Nat.le_trans (nestingFrom_anti lines kinds hij) (h p (Nat.le_trans hij hjp) hp)

/-- Inside a block the bound is one less. -/
theorem NestsWithin.inside {i stop next n : Nat} {line : Text} {kind : BlockKind}
    (h : NestsWithin lines kinds i stop n) (hline : lines.lineAt i = .ok line)
    (hopens : Line.opens? line = some kind) (hkind : kinds kind = true)
    (hs : stop ≤ lines.size) (hstop : lines.blockStop i (Line.indent line) stop = .ok next)
    (hi : i < stop) (hle : next ≤ stop) (hnext : i + 1 < next) :
    ∃ m, n = m + 1 ∧ NestsWithin lines kinds (i + 1) next m := by
  have hless : ∀ p, i + 1 ≤ p → p < next → lines.nestingFrom kinds (i + 1) p + 1 ≤ n := by
    intro p hp hpn
    rw [← nestingFrom_header lines kinds hline hopens hkind hs hstop hi hp hpn]
    exact h p (by omega) (by omega)
  obtain ⟨m, rfl⟩ : ∃ m, n = m + 1 := by
    have := hless (i + 1) (Nat.le_refl _) hnext
    exact ⟨n - 1, by omega⟩
  exact ⟨m, rfl, fun p hp hpn => Nat.le_of_succ_le_succ (hless p hp hpn)⟩

/-- The blocks of a tree nest at most one deeper than the lines of its range. -/
theorem depth_ofLines_le {i stop n : Nat} (hs : stop ≤ lines.size) (level : Int)
    (h : NestsWithin lines (fun _ => true) i stop n) :
    (Tree.ofLines level (lines.slice i stop)).depth ≤ n + 1 := by
  generalize hl : lines.slice i stop = l
  induction level, l using Tree.ofLines_induction generalizing i stop n with
  | nil level =>
    rw [Tree.ofLines]
    exact Nat.zero_le _
  | filler level line rest hfiller ih =>
    obtain ⟨-, -, hrest⟩ := of_slice_eq_cons lines hs hl
    rw [Tree.ofLines_of_filler rest hfiller]
    exact ih hs (h.later (Nat.le_succ i)) hrest
  | shallower level line rest hfiller hlt =>
    rw [Tree.ofLines_of_shallower rest hfiller hlt]
    exact Nat.zero_le _
  | deeper level line rest hfiller hgt ih =>
    obtain ⟨-, -, hrest⟩ := of_slice_eq_cons lines hs hl
    rw [Tree.ofLines_of_deeper rest hfiller hgt]
    exact ih hs (h.later (Nat.le_succ i)) hrest
  | statement level line rest hfiller hlevel ih ihbody ihafter =>
    obtain ⟨hi, hline, hrest⟩ := of_slice_eq_cons lines hs hl
    have hnext := ih hs (h.later (Nat.le_succ i)) hrest
    rw [Tree.ofLines_of_level rest hfiller hlevel]
    cases hst : Statement.ofLine (Text.strip line) with
    | assign a => exact hnext
    | print argument => exact hnext
    | ignored => exact hnext
    | block kind condition =>
      obtain ⟨next, hstop, hlt, hle, hblock, hafter⟩ :=
        exists_blockStop lines (Line.indent line) hi hs
      rw [hrest] at hblock hafter
      have hopens := Line.opens?_of_block hfiller hst
      refine Nat.max_le.mpr ⟨?_, ihafter hs (h.later (Nat.le_of_lt hlt)) hafter⟩
      rw [Tree.ofBlock]
      split
      · exact Nat.succ_le_succ (Nat.zero_le _)
      · -- a block with a level has a line
        rename_i inner hinner
        have hshort : i + 1 < next := by
          refine Nat.lt_of_not_le fun hempty => ?_
          rw [← hblock, slice_of_le lines hempty] at hinner
          exact absurd hinner (by simp [level?])
        obtain ⟨m, rfl, hm⟩ := h.inside hline hopens rfl hs hstop hi hle hshort
        exact Nat.succ_le_succ (ihbody inner (by omega) hm hblock)

end Lines

end LineScript
