import LineScript.Line

set_option autoImplicit false

/-!
# Blocks as lists of lines

A cursor finds the end of a block by scanning positions of the whole program.
Here a range is the list of its lines, and the block of a header is the longest
run of that list that belongs to the header.

Proved: inside the program, what the cursor finds is what the list says.  The end
of a block parts its range into the block and what follows it
(`exists_blockStop`), and the level of a block is the indent of its first
significant line (`bodyIndent_eq`).
-/

namespace LineScript

namespace Line

/-- The line belongs to the block of a header with the given indent: it is
deeper than the header, or it does not count. -/
def isInside (header : Int) (line : Text) : Bool :=
  isFiller line || decide (header < indent line)

end Line

namespace Lines

/-! ## Ranges -/

/-- The lines of `[i, stop)`. -/
def slice (lines : Lines) (i stop : Nat) : List Text := (lines.toList.take stop).drop i

variable (lines : Lines)

theorem slice_of_le {i stop : Nat} (h : stop ≤ i) : lines.slice i stop = [] := by
  apply List.drop_eq_nil_of_le
  rw [List.length_take]
  omega

/-- All the lines are a range. -/
theorem slice_zero_size : lines.slice 0 lines.size = lines.toList := by
  rw [slice, List.drop_zero, ← Array.length_toList, List.take_length]

theorem length_slice {i stop : Nat} (hs : stop ≤ lines.size) :
    (lines.slice i stop).length = stop - i := by
  rw [slice, List.length_drop, List.length_take, Array.length_toList]
  omega

theorem mem_of_lineAt {lines : Lines} {i : Int} {line : Text} (h : lines.lineAt i = .ok line) :
    line ∈ lines := by
  unfold lineAt at h
  extract_lets position at h
  split at h
  · exact absurd h (by simp)
  · split at h
    · rename_i hget
      exact Except.ok.inj h ▸ Array.mem_of_getElem? hget
    · exact absurd h (by simp)

theorem mem_of_mem_slice {lines : Lines} {i stop : Nat} {line : Text}
    (h : line ∈ lines.slice i stop) : line ∈ lines :=
  Array.mem_toList_iff.mp (List.mem_of_mem_take (List.mem_of_mem_drop h))

/-- A range that is not empty starts with the line at its cursor. -/
theorem slice_eq_cons {i stop : Nat} (hi : i < stop) (hs : stop ≤ lines.size) :
    ∃ line, lines.lineAt i = .ok line ∧
      lines.slice i stop = line :: lines.slice (i + 1) stop := by
  obtain ⟨line, hget, hline⟩ := @lineAt_eq_ok lines i (by omega) (by omega)
  refine ⟨line, hline, ?_⟩
  have hlt : i < (lines.toList.take stop).length := by
    rw [List.length_take, Array.length_toList]
    omega
  have hat : (lines.toList.take stop)[i] = line := by
    rw [List.getElem_take]
    rw [Int.toNat_natCast, ← Array.getElem?_toList] at hget
    exact (List.getElem_eq_iff _).mpr hget
  rw [slice, List.drop_eq_getElem_cons hlt, hat]
  rfl

theorem of_slice_eq_cons {i stop : Nat} {line : Text} {rest : List Text}
    (hs : stop ≤ lines.size) (h : lines.slice i stop = line :: rest) :
    i < stop ∧ lines.lineAt i = .ok line ∧ lines.slice (i + 1) stop = rest := by
  have hi : i < stop := by
    refine Nat.lt_of_not_le fun hle => ?_
    rw [slice_of_le lines hle] at h
    exact absurd h (by simp)
  obtain ⟨first, hfirst, hslice⟩ := slice_eq_cons lines hi hs
  obtain ⟨rfl, rfl⟩ := List.cons.inj (h.symm.trans hslice)
  exact ⟨hi, hfirst, rfl⟩

/-- The last lines of a range are a range. -/
theorem slice_drop (i n stop : Nat) :
    lines.slice (i + n) stop = (lines.slice i stop).drop n := by
  rw [slice, slice, List.drop_drop]

/-- The first lines of a range are a range. -/
theorem slice_take {i n stop : Nat} (h : i + n ≤ stop) :
    lines.slice i (i + n) = (lines.slice i stop).take n := by
  rw [slice, slice, List.take_drop, List.take_take, Nat.min_eq_left h]

/-- A range is parted by a position in it. -/
theorem slice_append {i n stop : Nat} (hi : i ≤ n) (hn : n ≤ stop) :
    lines.slice i n ++ lines.slice n stop = lines.slice i stop := by
  obtain ⟨k, rfl⟩ := Nat.exists_eq_add_of_le hi
  rw [slice_take lines hn, slice_drop, List.take_append_drop]

/-! ## Blocks -/

/-- The block of a header: the run of lines after it that belong to it. -/
def block (header : Int) (rest : List Text) : List Text := rest.takeWhile (Line.isInside header)

/-- What follows the block of a header. -/
def afterBlock (header : Int) (rest : List Text) : List Text :=
  rest.dropWhile (Line.isInside header)

/-- The level of a block: the indent of its first significant line. -/
def level? (body : List Text) : Option Nat :=
  (body.dropWhile Line.isFiller).head?.map Line.indent

theorem block_append_afterBlock (header : Int) (rest : List Text) :
    block header rest ++ afterBlock header rest = rest :=
  List.takeWhile_append_dropWhile

theorem length_block_le (header : Int) (rest : List Text) :
    (block header rest).length ≤ rest.length :=
  (List.takeWhile_sublist _).length_le

theorem length_afterBlock_le (header : Int) (rest : List Text) :
    (afterBlock header rest).length ≤ rest.length :=
  (List.dropWhile_sublist _).length_le

/-- What follows a block is what is left of the lines without as many as it has. -/
theorem drop_length_block (header : Int) (rest : List Text) :
    rest.drop (block header rest).length = afterBlock header rest :=
  calc rest.drop (block header rest).length
      = (block header rest ++ afterBlock header rest).drop (block header rest).length := by
        rw [block_append_afterBlock]
    _ = afterBlock header rest := List.drop_left

/-! ## What the cursor finds -/

/-- A search passes over the lines that fail its test and stops at what is left. -/
theorem find?_eq (test : Nat → Bool) (n i : Nat) (h : i + n ≤ lines.size) :
    find? lines test n i =
      .ok (match (lines.slice i (i + n)).dropWhile fun line =>
            Line.isFiller line || !test (Line.indent line) with
        | [] => none
        | line :: rest => some ((i + n : Int) - (rest.length + 1), Line.indent line)) := by
  induction n generalizing i with
  | zero => rw [find?, Nat.add_zero, slice_of_le lines (Nat.le_refl i)]; rfl
  | succ n ih =>
    obtain ⟨line, hline, hslice⟩ := slice_eq_cons lines
      (show i < i + (n + 1) by omega) h
    have hlen : (lines.slice (i + 1) (i + (n + 1))).length = n := by
      rw [length_slice lines h]
      omega
    rw [find?, hline, hslice]
    by_cases hp : (!Line.isFiller line && test (Line.indent line)) = true
    · have hn : ¬ (Line.isFiller line || !test (Line.indent line)) = true := by
        simpa using hp
      rw [List.dropWhile_cons, if_neg hn]
      simp only [if_pos hp, hlen]
      congr 3
      omega
    · have hd : (Line.isFiller line || !test (Line.indent line)) = true := by
        cases hf : Line.isFiller line <;> simp_all
      have hrest := ih (i + 1) (by omega)
      rw [List.dropWhile_cons, if_pos hd]
      simp only [if_neg hp]
      rw [← Int.natCast_succ, hrest, show i + 1 + n = i + (n + 1) by omega]
      split
      · rfl
      · congr 3
        omega

/-- A block ends as many lines after its header as it has. -/
theorem blockStop_eq (header : Int) {i stop : Nat} (hi : i < stop) (hs : stop ≤ lines.size) :
    blockStop lines i header stop =
      .ok ((i + 1 + (block header (lines.slice (i + 1) stop)).length : Nat) : Int) := by
  have hn : ((stop : Int) - ((i : Int) + 1)).toNat = stop - (i + 1) := by omega
  have hfind := find?_eq lines (fun k => decide ((k : Int) ≤ header))
    (stop - (i + 1)) (i + 1) (by omega)
  rw [show i + 1 + (stop - (i + 1)) = stop by omega] at hfind
  have hp : (fun line => Line.isFiller line || !decide ((Line.indent line : Int) ≤ header)) =
      Line.isInside header := by
    funext line
    simp only [Line.isInside, ← decide_not, Int.not_le]
  have hlen := congrArg List.length (block_append_afterBlock header (lines.slice (i + 1) stop))
  rw [List.length_append, length_slice lines hs, afterBlock] at hlen
  rw [hp] at hfind
  rw [blockStop, hn, show (i : Int) + 1 = ((i + 1 : Nat) : Int) from rfl, hfind]
  cases hd : (lines.slice (i + 1) stop).dropWhile (Line.isInside header) with
  | nil =>
    rw [hd, List.length_nil] at hlen
    simp only
    congr 1
    omega
  | cons line rest =>
    rw [hd, List.length_cons] at hlen
    simp only
    congr 1
    omega

/-- The end of a block parts a range into the block and what follows it. -/
theorem exists_blockStop (header : Int) {i stop : Nat} (hi : i < stop) (hs : stop ≤ lines.size) :
    ∃ next : Nat, blockStop lines i header stop = .ok next ∧ i < next ∧ next ≤ stop ∧
      lines.slice (i + 1) next = block header (lines.slice (i + 1) stop) ∧
      lines.slice next stop = afterBlock header (lines.slice (i + 1) stop) := by
  have hlen := length_block_le header (lines.slice (i + 1) stop)
  rw [length_slice lines hs] at hlen
  refine ⟨_, blockStop_eq lines header hi hs, by omega, by omega, ?_, ?_⟩
  · rw [slice_take lines (show _ ≤ stop by omega)]
    exact (List.prefix_iff_eq_take.mp (List.takeWhile_prefix _)).symm
  · rw [slice_drop, drop_length_block]

/-- The level of a range is the indent of its first significant line. -/
theorem bodyIndent_eq {i stop : Nat} (hi : i ≤ stop) (hs : stop ≤ lines.size) :
    bodyIndent lines i stop = .ok (level? (lines.slice i stop)) := by
  have hn : ((stop : Int) - (i : Int)).toNat = stop - i := by omega
  have hfind := find?_eq lines (fun _ => true) (stop - i) i (by omega)
  rw [show i + (stop - i) = stop by omega] at hfind
  simp only [Bool.not_true, Bool.or_false] at hfind
  rw [bodyIndent, hn, hfind, level?]
  cases (lines.slice i stop).dropWhile Line.isFiller with
  | nil => rfl
  | cons line rest => rfl

end Lines

end LineScript
