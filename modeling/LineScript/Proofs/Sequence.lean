import LineScript.Proofs.Layout

set_option autoImplicit false

/-!
# Programs one after the other

If lines are followed by others that start at the outermost indent, no block of the
former reaches into the latter: at most it takes in comments and blank lines, which
do not count.  So the tree of both is the one tree followed by the other.

Proved: a run of both is a run of the former, and then, unless that faults, a run
of the latter in the state that it has left (`Lines.run_one_after_the_other`).
-/

namespace LineScript

/-! ## Trees one after the other -/

namespace Tree

/-- The statements of a tree, followed by those of another one. -/
def append : Tree → Tree → Tree
  | .done, next => next
  | .assign a rest, next => .assign a (rest.append next)
  | .print argument rest, next => .print argument (rest.append next)
  | .block kind condition body rest, next => .block kind condition body (rest.append next)
  | .ignored rest, next => .ignored (rest.append next)

theorem run_append (cap : Int) (budget : Nat) (t next : Tree) :
    (t.append next).run cap budget = (do t.run cap budget; next.run cap budget) := by
  induction t with
  | done => rw [append, run, pure_bind]
  | assign a rest ih => rw [append, run, run, ih, bind_assoc]
  | print argument rest ih => rw [append, run, run, ih, bind_assoc]
  | block kind condition body rest _ ih => rw [append, run, run, ih, bind_assoc]
  | ignored rest ih => rw [append, run, run, ih]

theorem first_append (st : Statement) (rest body after next : Tree) :
    (first st rest body after).append next =
      first st (rest.append next) body (after.append next) := by
  cases st with
  | assign a => rfl
  | print argument => rfl
  | block kind condition => rfl
  | ignored => rfl

end Tree

/-! ## Lines one after the other -/

namespace Lines

/-- A block does not reach past lines that do not belong to it. -/
theorem block_append {header : Int} {rest : List Text} (h : block header rest = [])
    (lines : List Text) : block header (lines ++ rest) = block header lines := by
  rw [block] at h
  rw [block, block, List.takeWhile_append, h, List.append_nil]
  split
  · rename_i hall
    exact ((List.takeWhile_prefix _).eq_of_length hall).symm
  · rfl

theorem afterBlock_append {header : Int} {rest : List Text} (h : block header rest = [])
    (lines : List Text) : afterBlock header (lines ++ rest) = afterBlock header lines ++ rest := by
  have hall := block_append_afterBlock header (lines ++ rest)
  rw [block_append h] at hall
  apply List.append_cancel_left
  rw [hall, ← List.append_assoc, block_append_afterBlock]

/-- Lines that count and start at the outermost indent belong to no block. -/
theorem block_significant_eq_nil {lines : List Text} (h : ∀ k, level? lines = some k → k = 0)
    (header : Nat) : block header (significant lines) = [] := by
  rw [level?_eq_head?] at h
  cases hlines : significant lines with
  | nil => rfl
  | cons line rest =>
    rw [hlines] at h
    have hindent : Line.indent line = 0 := h _ rfl
    have hcounts : Line.isFiller line = false := by
      have hmem : line ∈ significant lines := hlines ▸ List.mem_cons_self
      simpa using (List.mem_filter.mp hmem).2
    rw [block, List.takeWhile_cons, if_neg]
    rw [Line.isInside, hcounts, hindent]
    simp

end Lines

namespace Tree

/-- Lines that are followed by lines of no block are read apart from them.  At the
outermost level no line ends the reading. -/
theorem ofLines_append_of_block {rest : List Text}
    (hrest : ∀ header : Nat, Lines.block header rest = []) {level : Int} (hlevel : level ≤ 0)
    (lines : List Text) :
    ofLines level (lines ++ rest) = (ofLines level lines).append (ofLines level rest) := by
  induction level, lines using ofLines_induction with
  | nil level => rw [List.nil_append, ofLines.eq_1, append]
  | filler level line lines hfiller ih =>
    rw [List.cons_append, ofLines_of_filler _ hfiller, ofLines_of_filler _ hfiller, ih hlevel]
  | shallower level line lines hfiller hlt => omega
  | deeper level line lines hfiller hgt ih =>
    rw [List.cons_append, ofLines_of_deeper _ hfiller hgt, ofLines_of_deeper _ hfiller hgt,
      ih hlevel]
  | statement level line lines hfiller heq ih _ ihafter =>
    have hblock := hrest (Line.indent line)
    rw [List.cons_append, ofLines_of_level _ hfiller heq, ofLines_of_level _ hfiller heq,
      first_append, Lines.block_append hblock, Lines.afterBlock_append hblock, ih hlevel,
      ihafter hlevel]

/-- Lines that are followed by lines at the outermost indent are read apart from them. -/
theorem ofLines_append {rest : List Text} (hrest : ∀ k, Lines.level? rest = some k → k = 0)
    (lines : List Text) :
    ofLines 0 (lines ++ rest) = (ofLines 0 lines).append (ofLines 0 rest) := by
  -- comments in front of `rest` fall into the last block of `lines`, so they go first
  have hfresh := Lines.block_significant_eq_nil hrest
  rw [← ofLines_significant 0 (lines ++ rest), ← ofLines_significant 0 lines,
    ← ofLines_significant 0 rest, Lines.significant, List.filter_append]
  exact ofLines_append_of_block hfresh (Int.le_refl 0) _

end Tree

/-! ## Output -/

/-- A statement takes nothing from the output. -/
theorem Statement.keeps_output (entries : List Text) (st : Statement) (budget : Nat) :
    st.Keeps (fun s => entries <+: s.output.toList) (fun _ => True) budget := by
  refine keeps_of_results (fun _ _ _ _ hs _ => hs) ?_
  intro argument _ s entry hs _
  rw [Array.toList_push]
  exact hs.trans (List.prefix_append _ _)

/-- A run only adds to the output. -/
theorem Lines.output_prefix_endingFrom (cap : Int) (budget : Nat) (lines : Lines) (s : State) :
    s.output.toList <+: (lines.endingFrom cap budget s).1.output.toList := by
  have hkeeps := Run.range_keeps cap lines budget 0 lines.size 0 (Nat.le_refl _) 0
    (fun line _ _ b _ _ => Statement.keeps_output s.output.toList
      (Statement.ofLine (Text.strip line)) b) (Or.inl trivial)
  exact (hkeeps s List.prefix_rfl).1

theorem Lines.output_prefix_resume (cap : Int) (budget : Nat) (lines : Lines)
    (e : State × Option Fault) :
    e.1.output.toList <+: (Run.resume (lines.endingFrom cap budget) e).1.output.toList := by
  obtain ⟨t, f⟩ := e
  cases f with
  | none => exact output_prefix_endingFrom cap budget lines t
  | some f => exact List.prefix_rfl

theorem Text.intercalate_prefix (sep : Text) {entries entries' : List Text}
    (h : entries <+: entries') : sep.intercalate entries <+: sep.intercalate entries' := by
  obtain ⟨more, rfl⟩ := h
  induction entries with
  | nil => exact List.nil_prefix
  | cons entry rest ih =>
    cases rest with
    | nil =>
      cases more with
      | nil => exact List.prefix_rfl
      | cons next more =>
        rw [List.singleton_append, List.intercalate_cons_cons, List.intercalate_singleton,
          List.append_assoc]
        exact List.prefix_append _ _
    | cons next rest =>
      rw [List.cons_append, List.cons_append, List.intercalate_cons_cons,
        List.intercalate_cons_cons]
      exact (List.prefix_append_right_inj _).mpr ih

/-! ## Runs one after the other -/

namespace Lines

theorem endingFrom_append (cap : Int) (budget : Nat) (lines : Lines) {rest : Lines}
    (hrest : ∀ k, level? rest.toList = some k → k = 0) (s : State) :
    (lines ++ rest).endingFrom cap budget s =
      Run.resume (rest.endingFrom cap budget) (lines.endingFrom cap budget s) := by
  have hnext : rest.endingFrom cap budget =
      Run.ending ((Tree.ofLines 0 rest.toList).run cap budget) := by
    funext t
    exact endingFrom_eq cap budget rest t
  rw [endingFrom_eq, endingFrom_eq, hnext, Array.toList_append,
    Tree.ofLines_append hrest lines.toList, Tree.run_append, Run.ending_seq]

/-- Lines that are followed by lines at the outermost indent run as if they were alone;
then, unless they fault, the others run as if they were alone, in the state that is left.
So a fault of the former is the fault of both and leaves the same state, and the output of
the former starts the output of both. -/
theorem run_one_after_the_other (cap : Int) (budget : Nat) (lines rest : Lines)
    (hrest : ∀ k, level? rest.toList = some k → k = 0) (s : State) :
    (lines ++ rest).endingFrom cap budget s =
      Run.resume (rest.endingFrom cap budget) (lines.endingFrom cap budget s) ∧
    (∀ f, (lines.endingFrom cap budget s).2 = some f →
      (lines ++ rest).endingFrom cap budget s = lines.endingFrom cap budget s) ∧
    (lines.endingFrom cap budget s).1.output.toList <+:
      ((lines ++ rest).endingFrom cap budget s).1.output.toList ∧
    (lines.endingFrom cap budget s).1.text <+:
      ((lines ++ rest).endingFrom cap budget s).1.text := by
  have happend := endingFrom_append cap budget lines hrest s
  have houtput : (lines.endingFrom cap budget s).1.output.toList <+:
      ((lines ++ rest).endingFrom cap budget s).1.output.toList := by
    rw [happend]
    exact output_prefix_resume cap budget rest _
  refine ⟨happend, ?_, houtput, Text.intercalate_prefix ['\n'] houtput⟩
  intro f hf
  rw [happend, Run.resume_of_fault hf]

/-- A block at the end of some lines. -/
def lastBlock : Lines := #["if 1 < 2:".toList, "  print('go')".toList]

/-- Lines that start with a comment as deep as that block, and go on at the outermost
indent. -/
def afterComment : Lines := #["  # done".toList, "print('end')".toList]

theorem afterComment_runs_after_lastBlock :
    level? afterComment.toList = some 0 ∧
    (lastBlock.endingFrom (1000 : Int) 0 {}).2 = some .nestingTooDeep ∧
    (lastBlock ++ afterComment).endingFrom (1000 : Int) 0 {} =
      lastBlock.endingFrom (1000 : Int) 0 {} ∧
    (lastBlock ++ afterComment).endingFrom (1000 : Int) nestingLimit {} =
      Run.resume (afterComment.endingFrom (1000 : Int) nestingLimit)
        (lastBlock.endingFrom (1000 : Int) nestingLimit {}) := by
  have hlevel : level? afterComment.toList = some 0 := rfl
  have hrest : ∀ k, level? afterComment.toList = some k → k = 0 :=
    fun k hk => (Option.some.inj (hlevel.symm.trans hk)).symm
  have hfault : (lastBlock.endingFrom (1000 : Int) 0 {}).2 = some .nestingTooDeep := by
    rw [endingFrom, Run.range_eq]
    rfl
  have hshallow := run_one_after_the_other 1000 0 lastBlock afterComment hrest {}
  have hdeep := run_one_after_the_other 1000 nestingLimit lastBlock afterComment hrest {}
  exact ⟨hlevel, hfault, hshallow.2.1 _ hfault, hdeep.1⟩

end Lines

end LineScript
