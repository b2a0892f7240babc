import LineScript.Proofs.Layout
import LineScript.Text.Utf8

set_option autoImplicit false

/-!
# Line ends

A line may end with a carriage return and a line feed.  The carriage return is then the
last character of its line, and like every blank at the end of a line it does not count.

Proved: a text with such line ends has the lines of the text with plain ones, some of them
with a carriage return at their end (`Text.splitOn_unifyLineEnds`), so the two are one
program (`Outcome.ofProgram_unifyLineEnds`); and plain line ends are what two replacements
leave (`Text.unifyLineEnds_eq_replaceAll`).
-/

namespace LineScript

namespace Text

/-- Every carriage return is followed by a line feed. -/
def ReturnsEndLines : Text → Prop
  | [] => True
  | c :: rest => (c = '\r' → rest.head? = some '\n') ∧ ReturnsEndLines rest

instance decidableReturnsEndLines : (t : Text) → Decidable t.ReturnsEndLines
  | [] => inferInstanceAs (Decidable True)
  | c :: rest =>
    haveI := decidableReturnsEndLines rest
    inferInstanceAs (Decidable ((c = '\r' → rest.head? = some '\n') ∧ ReturnsEndLines rest))

theorem returnsEndLines_of_not_mem {t : Text} (h : '\r' ∉ t) : t.ReturnsEndLines := by
  induction t with
  | nil => trivial
  | cons c rest ih =>
    rw [List.mem_cons, not_or] at h
    exact ⟨fun hc => absurd hc.symm h.1, ih h.2⟩

/-- The second text is the first one, or the first one with a carriage return at its end. -/
def AddsReturn (line raw : Text) : Prop := raw = line ∨ raw = line ++ ['\r']

theorem AddsReturn.cons {line raw : Text} (h : AddsReturn line raw) (c : Char) :
    AddsReturn (c :: line) (c :: raw) :=
  h.imp (congrArg (c :: ·)) (congrArg (c :: ·))

theorem forall₂_modifyHead_cons {lines raws : List Text} (h : List.Forall₂ AddsReturn lines raws)
    (c : Char) :
    List.Forall₂ AddsReturn (lines.modifyHead (c :: ·)) (raws.modifyHead (c :: ·)) := by
  cases h with
  | nil => exact .nil
  | cons hline hrest => exact .cons (hline.cons c) hrest

/-- With plain line ends a text has the same lines, less the carriage returns at their
ends. -/
theorem splitOn_unifyLineEnds {t : Text} (h : t.ReturnsEndLines) :
    List.Forall₂ AddsReturn (t.unifyLineEnds.splitOn '\n') (t.splitOn '\n') := by
  induction t using unifyLineEnds.induct with
  | case1 => exact .cons (Or.inl rfl) .nil
  | case2 rest ih =>
    rw [unifyLineEnds, List.splitOn_cons_eq_if_modifyHead, List.splitOn_cons_eq_if_modifyHead,
      List.splitOn_cons_eq_if_modifyHead]
    exact .cons (Or.inr rfl) (ih h.2.2)
  | case3 rest hnext ih =>
    -- a carriage return without a line feed after it
    obtain ⟨rest', rfl⟩ := List.head?_eq_some_iff.mp (h.1 rfl)
    exact absurd rfl (hnext rest')
  | case4 c rest hnext hc ih =>
    rw [unifyLineEnds, List.splitOn_cons_eq_if_modifyHead, List.splitOn_cons_eq_if_modifyHead]
    split
    · exact .cons (Or.inl rfl) (ih h.2)
    · exact forall₂_modifyHead_cons (ih h.2) c
    · exact hnext
    · exact hc

/-- A character at which the replaced text does not occur is kept. -/
theorem replaceAll_cons_of_not_prefix {old t : Text} (new : Text) {c : Char} (hold : old ≠ [])
    (h : ¬ old <+: c :: t) : replaceAll old new (c :: t) = c :: replaceAll old new t := by
  have hprefix : ¬ old.isPrefixOf (c :: t) = true := mt List.isPrefixOf_iff_prefix.mp h
  rw [replaceAll, replaceAll, if_neg hold, if_neg hold, replaceFrom, if_neg hprefix]

/-- Line ends are unified by two replacements: of a carriage return with a line feed, and of
a carriage return that is left. -/
theorem unifyLineEnds_eq_replaceAll (t : Text) :
    t.unifyLineEnds = replaceAll ['\r'] ['\n'] (replaceAll ['\r', '\n'] ['\n'] t) := by
  induction t using unifyLineEnds.induct with
  | case1 => rfl
  | case2 rest ih =>
    rw [unifyLineEnds, ih]
    rfl
  | case3 rest hnext ih =>
    have hpair : ¬ ['\r', '\n'] <+: '\r' :: rest := by
      rintro ⟨rest', hrest⟩
      exact hnext rest' (List.cons.inj hrest).2.symm
    rw [unifyLineEnds, ih, replaceAll_cons_of_not_prefix _ (by simp) hpair]
    · rfl
    · exact hnext
  | case4 c rest hnext hc ih =>
    have hstart : ∀ old u, ¬ '\r' :: old <+: c :: u := fun old u hprefix =>
      hc (List.cons_prefix_cons.mp hprefix).1.symm
    rw [unifyLineEnds, ih, replaceAll_cons_of_not_prefix _ (by simp) (hstart _ _),
      replaceAll_cons_of_not_prefix _ (by simp) (hstart _ _)]
    · exact hnext
    · exact hc

end Text

/-- A line with blanks at its end is the line indented as it was. -/
theorem Line.reindents_append_blanks (line : Text) {tail : Text}
    (h : tail.all Text.isBlank = true) : Reindents id line (line ++ tail) := by
  have hbody : (line.dropWhile isIndentation).head?.any isIndentation = false := by
    have hhead := List.head?_dropWhile_not isIndentation line
    cases hrest : (line.dropWhile isIndentation).head? with
    | none => rfl
    | some c =>
      rw [hrest] at hhead
      exact hhead
  have hlead : (line.takeWhile isIndentation).all isIndentation = true := List.all_takeWhile
  have hline : Reindents id _ _ := .mk hlead hbody hlead rfl h
  rwa [List.takeWhile_append_dropWhile] at hline

/-- A program runs alike with plain line ends and with carriage returns before them, however
deep it may nest. -/
theorem Outcome.ofProgram_unifyLineEnds (cap : Int) {code : Text} (h : code.ReturnsEndLines)
    (budget : Nat) : ofProgram cap code.unifyLineEnds budget = ofProgram cap code budget := by
  have hmatches : List.Forall₂ (Line.Matches id) (Lines.ofText code.unifyLineEnds).toList
      (Lines.ofText code).toList := by
    refine (Text.splitOn_unifyLineEnds h).imp fun line raw hraw => Line.Reindents.matches ?_
    rcases hraw with rfl | rfl
    · have hplain := Line.reindents_append_blanks raw List.all_nil
      rwa [List.append_nil] at hplain
    · exact Line.reindents_append_blanks line rfl
  have htree := Tree.ofLines_of_matches strictMono_id 0 hmatches
  exact (ofProgram_congr_budget cap htree budget).symm

end LineScript
