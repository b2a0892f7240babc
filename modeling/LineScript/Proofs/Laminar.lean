import LineScript.Proofs.Progress
import LineScript.Proofs.Reach
import Mathlib.Order.Bounds.Defs

set_option autoImplicit false

/-!
# Blocks are nested or disjoint

The end of a block is searched for in the range that its header stands in, and the range
may itself be the inside of a block.  So the search might stop only because the range does.
It never does: where a range ends, the program ends or there is a line that is not deeper
than the level of the range, and such a line ends every block of the range too.

Proved: the end of a block is the first line behind its header that is not deeper
(`Lines.blockStop_eq_iff`); blocks are nested or disjoint (`Lines.IsBlockStop.laminar`); a
run is only ever in ranges that end in this way (`Cursor.Reaches.closed`), and in these a
block ends where it ends in the whole program (`Cursor.Closed.blockStop_eq`).
-/

namespace LineScript

namespace Lines

/-! ## Ends of blocks -/

/-- The line at a position counts, and it is not deeper than an indent. -/
def Closes (lines : Lines) (indent j : Int) : Prop :=
  ∃ line, lines.lineAt j = .ok line ∧ Line.isFiller line = false ∧ Line.indent line ≤ indent

/-- In a range up to `stop`, the block of a header at `i` ends at `next`. -/
structure IsBlockStop (lines : Lines) (i : Nat) (indent : Int) (stop next : Nat) : Prop where
  after : i < next
  le_stop : next ≤ stop
  least : ∀ j : Nat, i < j → j < next → ¬ lines.Closes indent j
  closes : next = stop ∨ lines.Closes indent next

variable {lines : Lines}

theorem Closes.mono {indent indent' j : Int} (h : lines.Closes indent j) (hle : indent ≤ indent') :
    lines.Closes indent' j := by
  obtain ⟨line, hline, hcounts, hindent⟩ := h
  exact ⟨line, hline, hcounts, Int.le_trans hindent hle⟩

/-- A line belongs to a block exactly if it does not close it. -/
theorem closes_iff {indent j : Int} {line : Text} (hline : lines.lineAt j = .ok line) :
    lines.Closes indent j ↔ Line.isInside indent line = false := by
  rw [Line.isInside, Bool.or_eq_false_iff, decide_eq_false_iff_not, Int.not_lt]
  constructor
  · rintro ⟨found, hfound, hcounts⟩
    obtain rfl := Except.ok.inj (hline.symm.trans hfound)
    exact hcounts
  · intro hcounts
    exact ⟨line, hline, hcounts⟩

/-- The line at a position of a range is a line of it. -/
theorem mem_slice {i j stop : Nat} (hi : i ≤ j) (hj : j < stop) (hs : stop ≤ lines.size)
    {line : Text} (hline : lines.lineAt j = .ok line) : line ∈ lines.slice i stop := by
  obtain ⟨found, hfound, hslice⟩ := slice_eq_cons lines hj hs
  obtain rfl := Except.ok.inj (hline.symm.trans hfound)
  rw [← slice_append lines hi (Nat.le_of_lt hj), hslice]
  exact List.mem_append_right _ List.mem_cons_self

/-- The search for the end of a block finds one. -/
theorem exists_isBlockStop {i stop : Nat} (indent : Int) (hi : i < stop)
    (hs : stop ≤ lines.size) :
    ∃ next : Nat, lines.blockStop i indent stop = .ok next ∧
      lines.IsBlockStop i indent stop next := by
  obtain ⟨next, hstop, hlt, hle, hblock, hafter⟩ := exists_blockStop lines indent hi hs
  refine ⟨next, hstop, hlt, hle, ?_, ?_⟩
  · intro j hij hjn hcloses
    have ⟨line, hline, _⟩ := hcloses
    have hmem : line ∈ block indent (lines.slice (i + 1) stop) :=
      hblock ▸ mem_slice hij hjn (Nat.le_trans hle hs) hline
    have hinside := List.all_eq_true.mp List.all_takeWhile line hmem
    exact absurd (hinside.symm.trans ((closes_iff hline).mp hcloses)) (by simp)
  · rcases Nat.lt_or_eq_of_le hle with hlt | heq
    · -- what follows the block starts with the line that closes it
      obtain ⟨line, hline, hslice⟩ := slice_eq_cons lines hlt hs
      have hout := List.head?_dropWhile_not (Line.isInside indent) (lines.slice (i + 1) stop)
      rw [← afterBlock, ← hafter, hslice] at hout
      exact Or.inr ((closes_iff hline).mpr hout)
    · exact Or.inl heq

theorem IsBlockStop.unique {i stop next next' : Nat} {indent : Int}
    (h : lines.IsBlockStop i indent stop next) (h' : lines.IsBlockStop i indent stop next') :
    next = next' := by
  have hnot : ∀ {m n : Nat}, lines.IsBlockStop i indent stop m →
      lines.IsBlockStop i indent stop n → ¬ m < n := by
    intro m n hm hn hlt
    rcases hm.closes with rfl | hcloses
    · exact absurd hn.le_stop (Nat.not_le.mpr hlt)
    · exact hn.least m hm.after hlt hcloses
  exact Nat.le_antisymm (Nat.not_lt.mp (hnot h' h)) (Nat.not_lt.mp (hnot h h'))

/-- The end of a block is its header's range cut off at the first line that closes it. -/
theorem blockStop_eq_iff {i stop : Nat} {indent : Int} (hi : i < stop) (hs : stop ≤ lines.size)
    {next : Nat} :
    lines.blockStop i indent stop = .ok next ↔ lines.IsBlockStop i indent stop next := by
  obtain ⟨found, hfound, hspec⟩ := @exists_isBlockStop lines i stop indent hi hs
  constructor
  · intro h
    obtain rfl : found = next := Int.ofNat.inj (Except.ok.inj (hfound.symm.trans h))
    exact hspec
  · intro h
    rw [hfound, hspec.unique h]

/-- A line at a position is a line of the program. -/
theorem lt_size_of_lineAt {i : Nat} {line : Text} (h : lines.lineAt i = .ok line) :
    i < lines.size := by
  refine Nat.lt_of_not_le fun hle => ?_
  rw [lineAt, if_neg (by omega), if_neg (by omega)] at h
  simp [hle] at h

section

variable {i next : Nat} {indent : Int} (h : lines.IsBlockStop i indent lines.size next)
include h

/-- In the whole program, a block that is closed ends at the first line that closes it. -/
theorem IsBlockStop.isLeast (hcloses : ∃ j : Nat, i < j ∧ lines.Closes indent j) :
    IsLeast {j : Nat | i < j ∧ lines.Closes indent j} next := by
  have hle : ∀ j : Nat, i < j → lines.Closes indent j → next ≤ j :=
    fun j hj hclose => Nat.not_lt.mp fun hlt => h.least j hj hlt hclose
  refine ⟨⟨h.after, ?_⟩, fun j hj => hle j hj.1 hj.2⟩
  rcases h.closes with heq | hclose
  · -- a line that closes the block is before the end of the program
    obtain ⟨j, hj, hclose⟩ := hcloses
    have ⟨line, hline, _⟩ := hclose
    have hnext := hle j hj hclose
    have hsize := lt_size_of_lineAt hline
    omega
  · exact hclose

/-- A block that is not closed ends with the program. -/
theorem IsBlockStop.eq_size (hopen : ¬ ∃ j : Nat, i < j ∧ lines.Closes indent j) :
    next = lines.size :=
  h.closes.resolve_right fun hclose => hopen ⟨next, h.after, hclose⟩

end

/-- Lines of a block that count are deeper than its header. -/
theorem IsBlockStop.lt_indent {i j stop next : Nat} {indent : Int}
    (h : lines.IsBlockStop i indent stop next) (hij : i < j) (hj : j < next) {line : Text}
    (hline : lines.lineAt j = .ok line) (hcounts : Line.isFiller line = false) :
    indent < Line.indent line :=
  Int.not_le.mp fun hle => h.least j hij hj ⟨line, hline, hcounts, hle⟩

/-- Two blocks are nested or disjoint. -/
theorem IsBlockStop.laminar {h k stop next next' : Nat} {indent indent' : Int}
    (hh : lines.IsBlockStop h indent stop next) (hk : lines.IsBlockStop k indent' stop next')
    (hhk : h < k) {line : Text} (hline : lines.lineAt k = .ok line)
    (hcounts : Line.isFiller line = false) (hindent : (Line.indent line : Int) = indent') :
    next ≤ k ∨ next' ≤ next := by
  refine or_iff_not_imp_left.mpr fun hin => ?_
  rw [Nat.not_le] at hin
  -- the second header lies in the first block, so it is deeper than the first
  have hdeeper : indent ≤ indent' :=
    hindent ▸ Int.le_of_lt (hh.lt_indent hhk hin hline hcounts)
  rcases hh.closes with rfl | hcloses
  · exact hk.le_stop
  · refine Nat.not_lt.mp fun hlt => ?_
    exact hk.least next hin hlt (hcloses.mono hdeeper)

/-- Where a range ends with a line that closes the block, the block ends as in the rest of the
program. -/
theorem IsBlockStop.widen {i stop stop' next : Nat} {indent : Int}
    (h : lines.IsBlockStop i indent stop next) (hle : stop ≤ stop')
    (hstop : stop = stop' ∨ lines.Closes indent stop) : lines.IsBlockStop i indent stop' next := by
  refine ⟨h.after, Nat.le_trans h.le_stop hle, h.least, ?_⟩
  rcases h.closes with rfl | hcloses
  · exact hstop
  · exact Or.inr hcloses

end Lines

/-! ## Ranges of a run -/

namespace Cursor

/-- The range of the cursor ends with the program, or at a line that is not deeper than its
level. -/
structure Closed (lines : Lines) (c : Cursor) : Prop extends InBounds lines c where
  closes : c.stop = lines.size ∨ lines.Closes c.level c.stop

variable {cap : LoopCap} {lines : Lines}

theorem initial_closed (lines : Lines) : (initial lines).Closed lines :=
  ⟨initial_inBounds lines, Or.inl rfl⟩

/-- In such a range a block ends where it ends in the whole program. -/
theorem Closed.blockStop_eq {c : Cursor} (h : c.Closed lines) {line : Text}
    (hat : c.Dispatches lines line) :
    lines.blockStop c.position (Line.indent line) c.stop =
      lines.blockStop c.position (Line.indent line) lines.size := by
  obtain ⟨i, stop, hi, hstop, -, hs⟩ := h.exists_nat
  have hinside := hat.inside
  have hcloses := h.closes
  rw [← hat.at_level] at hcloses
  rw [hi, hstop] at hinside
  rw [hstop] at hcloses
  obtain ⟨next, hnext, hspec⟩ := @Lines.exists_isBlockStop lines i stop (Line.indent line)
    (Int.ofNat_lt.mp hinside) hs
  have hwide := hspec.widen hs (hcloses.imp_left Int.ofNat.inj)
  rw [hi, hstop, hnext]
  exact ((Lines.blockStop_eq_iff (by omega) (Nat.le_refl _)).mpr hwide).symm

/-- The level of a block is deeper than its header. -/
theorem lt_of_bodyIndent {i stop next : Nat} {indent : Int} (hi : i < stop) (hs : stop ≤ lines.size)
    (hstop : lines.blockStop i indent stop = .ok next) {inner : Nat}
    (hlevel : lines.bodyIndent ((i : Int) + 1) next = .ok (some inner)) : indent < inner := by
  obtain ⟨found, hfound, hlt, hle, hblock, -⟩ := Lines.exists_blockStop lines indent hi hs
  obtain rfl : found = next := Int.ofNat.inj (Except.ok.inj (hfound.symm.trans hstop))
  have hbody : lines.bodyIndent ((i : Int) + 1) found = .ok (Lines.level? _) :=
    Lines.bodyIndent_eq lines (show i + 1 ≤ found from hlt) (Nat.le_trans hle hs)
  rw [hblock, hlevel] at hbody
  exact Lines.lt_of_level?_block (Except.ok.inj hbody).symm

/-- A step leads from such a range into such a range. -/
theorem Step.closed {c d : Cursor} (h : Step cap lines c d) (hc : c.Closed lines) :
    d.Closed lines := by
  have hbounds := h.inBounds hc.toInBounds
  refine ⟨hbounds, ?_⟩
  cases h with
  | pass _ _ => exact hc.closes
  | next _ _ => exact hc.closes
  | @enter line condition kind next runs done inner t hat _ hnext _ _ _ _ _ hlevel =>
    obtain ⟨i, stop, hi, hstop, -, hs⟩ := hc.exists_nat
    have hinside := hat.inside
    have hcloses := hc.closes
    rw [← hat.at_level, hstop] at hcloses
    rw [hi, hstop] at hinside hnext
    rw [hi] at hlevel
    obtain ⟨found, hfound, hspec⟩ := @Lines.exists_isBlockStop lines i stop (Line.indent line)
      (Int.ofNat_lt.mp hinside) hs
    obtain rfl : (found : Int) = next := Except.ok.inj (hfound.symm.trans hnext)
    have hdeeper := lt_of_bodyIndent (Int.ofNat_lt.mp hinside) hs hfound hlevel
    -- the block ends with a line that is not deeper than its header, or with the range
    have hend : (found : Int) = lines.size ∨ lines.Closes (Line.indent line) found := by
      rcases hspec.closes with rfl | hline
      · exact hcloses
      · exact Or.inr hline
    exact hend.imp_right fun hline => hline.mono (Int.le_of_lt hdeeper)

/-- A run is only ever in ranges that end with the program or at a line that is not deeper
than their level. -/
theorem Reaches.closed {c d : Cursor} (h : Reaches cap lines c d) (hc : c.Closed lines) :
    d.Closed lines := by
  induction h with
  | refl => exact hc
  | tail _ hstep ih => exact hstep.closed ih

end Cursor

/-! ## Blocks of a program -/

/-- The block of a line that counts ends at the first line behind it that counts and is not
deeper, or with the program if there is none, and the lines before that which count are
deeper.  Two blocks are nested or disjoint.  So wherever a run comes to a header, the block
that is searched for in the range of the header is the one in the whole program. -/
theorem Lines.blocks_laminar (lines : Lines) :
    (∀ (h : Nat) (line : Text), lines.lineAt h = .ok line → Line.isFiller line = false →
      ∃ next : Nat, lines.blockStop h (Line.indent line) lines.size = .ok next ∧
        ((∃ j : Nat, h < j ∧ lines.Closes (Line.indent line) j) →
          IsLeast {j : Nat | h < j ∧ lines.Closes (Line.indent line) j} next) ∧
        ((¬ ∃ j : Nat, h < j ∧ lines.Closes (Line.indent line) j) → next = lines.size) ∧
        ∀ (j : Nat) (inner : Text), h < j → j < next → lines.lineAt j = .ok inner →
          Line.isFiller inner = false → Line.indent line < Line.indent inner) ∧
    (∀ (h k next next' : Nat) (line line' : Text), h < k →
      lines.lineAt h = .ok line → Line.isFiller line = false →
      lines.lineAt k = .ok line' → Line.isFiller line' = false →
      lines.blockStop h (Line.indent line) lines.size = .ok next →
      lines.blockStop k (Line.indent line') lines.size = .ok next' →
      next ≤ k ∨ next' ≤ next) ∧
    ∀ (cap : LoopCap) (c : Cursor) (line condition : Text) (kind : BlockKind),
      Cursor.Reaches cap lines (.initial lines) c → c.Dispatches lines line →
      Statement.ofLine (Text.strip line) = .block kind condition →
      lines.blockStop c.position (Line.indent line) c.stop =
        lines.blockStop c.position (Line.indent line) lines.size := by
  refine ⟨?_, ?_, ?_⟩
  · intro h line hline _
    obtain ⟨next, hnext, hspec⟩ := @exists_isBlockStop lines h lines.size (Line.indent line)
      (lt_size_of_lineAt hline) (Nat.le_refl _)
    refine ⟨next, hnext, hspec.isLeast, hspec.eq_size, ?_⟩
    intro j inner hj hjn hinner hcounts
    exact Int.ofNat_lt.mp (hspec.lt_indent hj hjn hinner hcounts)
  · intro h k next next' line line' hhk hline _ hline' hcounts' hnext hnext'
    have hspec := (blockStop_eq_iff (lt_size_of_lineAt hline) (Nat.le_refl _)).mp hnext
    have hspec' := (blockStop_eq_iff (lt_size_of_lineAt hline') (Nat.le_refl _)).mp hnext'
    exact hspec.laminar hspec' hhk hline' hcounts' rfl
  · intro cap c line condition kind hreach hat _
    exact (hreach.closed (Cursor.initial_closed lines)).blockStop_eq hat

/-- A block inside a block, with a comment between their ends. -/
def innerBlock : Lines :=
  #["while 'a' == 'a':".toList, "    if 'b' == 'b':".toList, "        go".toList,
    "  # both end here".toList, "end".toList]

/-- The inner header, in the range of the outer block. -/
def innerCursor : Cursor := ⟨nestingLimit - Run.blockCost, 1, 4, 4, {}⟩

theorem Lines.innerBlock_ends_alike :
    Cursor.Reaches (1 : Int) innerBlock (.initial innerBlock) innerCursor ∧
    innerCursor.Dispatches innerBlock "    if 'b' == 'b':".toList ∧
    innerBlock.blockStop 1 4 4 = innerBlock.blockStop 1 4 5 ∧
    innerBlock.blockStop 0 0 5 = .ok 4 ∧ innerBlock.blockStop 1 4 5 = .ok 4 ∧
    IsLeast {j : Nat | 1 < j ∧ innerBlock.Closes 4 j} 4 := by
  obtain ⟨hends, -, hruns⟩ := blocks_laminar innerBlock
  have houter : (Cursor.initial innerBlock).Dispatches innerBlock "while 'a' == 'a':".toList :=
    ⟨⟨by decide, rfl⟩, rfl, rfl⟩
  have hinner : innerCursor.Dispatches innerBlock "    if 'b' == 'b':".toList :=
    ⟨⟨by decide, rfl⟩, rfl, rfl⟩
  have hreaches : Cursor.Reaches (1 : Int) innerBlock (.initial innerBlock) innerCursor :=
    .single (.enter houter rfl rfl rfl Nat.zero_lt_one (by decide) rfl rfl rfl)
  obtain ⟨next, hnext, hleast, -, -⟩ := hends 1 "    if 'b' == 'b':".toList rfl rfl
  obtain rfl : 4 = next := Int.ofNat.inj (Except.ok.inj hnext)
  have halike := hruns (1 : Int) innerCursor _ "'b' == 'b'".toList .once hreaches hinner rfl
  exact ⟨hreaches, hinner, halike, rfl, rfl, hleast ⟨4, by decide, _, rfl, rfl, by decide⟩⟩

end LineScript
