import LineScript.Fault
import LineScript.Text.Blank

set_option autoImplicit false

/-!
# Lines and blocks

A program is an array of lines.  A block has no end mark: it is every line after
its header that is indented deeper than the header.  Blank lines and comments
neither open nor close one.

Positions are integers; a negative one counts from the end of the program, and a
position past either end is a fault.

Proved: the end of a block lies after its header and inside the range that is
searched (`blockStop_bounds`), and every position from zero on that is inside the
program has a line (`lineAt_eq_ok`).
-/

namespace LineScript

namespace Line

/-- The width of a tab. -/
def tabWidth : Nat := 4

/-- The indent of a line: its leading spaces and tabs. -/
def indent : Text → Nat
  | ' ' :: cs => indent cs + 1
  | '\t' :: cs => indent cs + tabWidth
  | _ => 0

/-- The line is blank or a comment. -/
def isFiller (line : Text) : Bool :=
  match line.dropWhile Text.isBlank with
  | [] => true
  | c :: _ => c = '#'

end Line

/-- The lines of a program. -/
abbrev Lines := Array Text

namespace Lines

/-- The lines of a text. -/
def ofText (t : Text) : Lines := (t.splitOn '\n').toArray

/-- The line at a position. -/
def lineAt (lines : Lines) (i : Int) : Except Fault Text :=
  let position := if i < 0 then i + lines.size else i
  if position < 0 then .error .lineOutOfRange
  else match lines[position.toNat]? with
    | some line => .ok line
    | none => .error .lineOutOfRange

/-- The first line among the `n` from `j` on that is significant and whose indent
passes a test: its position and its indent. -/
def find? (lines : Lines) (test : Nat → Bool) : Nat → Int → Except Fault (Option (Int × Nat))
  | 0, _ => .ok none
  | n + 1, j =>
    match lineAt lines j with
    | .error f => .error f
    | .ok line =>
      if !Line.isFiller line && test (Line.indent line) then .ok (some (j, Line.indent line))
      else find? lines test n (j + 1)

/-- The position just past the block of the header at `header`: the first
significant line before `stop` that is not deeper than `indent`, or `stop`. -/
def blockStop (lines : Lines) (header indent stop : Int) : Except Fault Int :=
  match find? lines (fun k => k ≤ indent) (stop - (header + 1)).toNat (header + 1) with
  | .error f => .error f
  | .ok none => .ok stop
  | .ok (some (j, _)) => .ok j

/-- The indent of the first significant line in a range. -/
def bodyIndent (lines : Lines) (start stop : Int) : Except Fault (Option Nat) :=
  match find? lines (fun _ => true) (stop - start).toNat start with
  | .error f => .error f
  | .ok none => .ok none
  | .ok (some (_, k)) => .ok (some k)

theorem find?_bounds {lines : Lines} {test : Nat → Bool} {n : Nat} {i j : Int} {k : Nat}
    (h : find? lines test n i = .ok (some (j, k))) : i ≤ j ∧ j < i + n := by
  induction n generalizing i with
  | zero => simp [find?] at h
  | succ n ih =>
    rw [find?] at h
    split at h
    · exact absurd h (by simp)
    · split at h
      · simp only [Except.ok.injEq, Option.some.injEq, Prod.mk.injEq] at h
        omega
      · have := ih h
        omega

/-- A block ends after its header, and no later than the range it is searched in. -/
theorem blockStop_bounds {lines : Lines} {header indent stop next : Int}
    (h : blockStop lines header indent stop = .ok next) (hs : header < stop) :
    header < next ∧ next ≤ stop := by
  unfold blockStop at h
  split at h
  · exact absurd h (by simp)
  · simp only [Except.ok.injEq] at h
    omega
  · rename_i j k hf
    have := find?_bounds hf
    simp only [Except.ok.injEq] at h
    omega

/-- A position in the program has a line. -/
theorem lineAt_eq_ok {lines : Lines} {i : Int} (h0 : 0 ≤ i) (h : i < lines.size) :
    ∃ line, lines[i.toNat]? = some line ∧ lineAt lines i = .ok line := by
  have hlt : i.toNat < lines.size := by omega
  refine ⟨lines[i.toNat], by simp [hlt], ?_⟩
  unfold lineAt
  rw [if_neg (by omega), if_neg (by omega)]
  simp [hlt]

end Lines

end LineScript
