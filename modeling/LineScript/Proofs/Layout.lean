import LineScript.Proofs.Piece
import LineScript.Proofs.Reach
import Mathlib.Data.List.Forall2
import Mathlib.Order.Monotone.Basic

set_option autoImplicit false

/-!
# What the layout of a program leaves alone

A program is laid out in lines, and only two things of the layout count: which
line is significant, and which of two indents is deeper.  Both are seen on the
tree of the program, since a run does nothing but run its tree.

Proved: the lines that are blank or comments can be left out or put in anywhere
(`Outcome.fillers_have_no_effect`), and a program can be indented anew, by any
spaces and tabs that keep the order of its indents, and have blanks at the ends of
its lines (`Outcome.indents_matter_by_order`).
-/

namespace LineScript

/-! ## Programs with one tree -/

/-- What a program leaves bound. -/
def Environment.ofProgram (cap : LoopCap) (code : Text) : Environment :=
  (Run.ending (runLines cap (.ofText code)) {}).1.env

section

variable (cap : Int) {code code' : Text}
  (h : Tree.ofLines 0 (Lines.ofText code').toList = Tree.ofLines 0 (Lines.ofText code).toList)
include h

theorem Lines.endingFrom_congr (budget : Nat) (s : State) :
    (Lines.ofText code').endingFrom cap budget s = (Lines.ofText code).endingFrom cap budget s := by
  rw [Lines.endingFrom_eq, Lines.endingFrom_eq, h]

/-- Programs that are read as one tree print the same and end alike, however deep they may
nest. -/
theorem Outcome.ofProgram_congr_budget (budget : Nat) :
    ofProgram cap code' budget = ofProgram cap code budget := by
  rw [ofProgram_eq_endingFrom, ofProgram_eq_endingFrom, Lines.endingFrom_congr cap h]

/-- Programs that are read as one tree print the same, end alike and leave the same
bindings. -/
theorem Outcome.ofProgram_congr :
    ofProgram cap code' = ofProgram cap code ∧
      Environment.ofProgram cap code' = Environment.ofProgram cap code :=
  ⟨ofProgram_congr_budget cap h nestingLimit,
    congrArg (fun e : State × Option Fault => e.1.env)
      (Lines.endingFrom_congr cap h nestingLimit {})⟩

end

/-! ## Lines that do not count -/

namespace Lines

/-- The lines that count. -/
def significant (lines : List Text) : List Text :=
  lines.filter fun line => !Line.isFiller line

section

variable {line : Text}

theorem significant_of_filler (h : Line.isFiller line = true) (rest : List Text) :
    significant (line :: rest) = significant rest :=
  List.filter_cons_of_neg (by simp [h])

theorem significant_of_not_filler (h : Line.isFiller line = false) (rest : List Text) :
    significant (line :: rest) = line :: significant rest :=
  List.filter_cons_of_pos (by simp [h])

theorem isInside_of_filler (h : Line.isFiller line = true) (header : Int) :
    Line.isInside header line = true := by
  rw [Line.isInside, h, Bool.true_or]

end

theorem significant_significant (lines : List Text) :
    significant (significant lines) = significant lines := by
  rw [significant, significant, List.filter_filter]
  simp only [Bool.and_self]

/-- A line that does not count never ends a block. -/
theorem block_significant (header : Int) (rest : List Text) :
    block header (significant rest) = significant (block header rest) := by
  induction rest with
  | nil => rfl
  | cons line rest ih =>
    rw [block, block] at ih
    rw [block, block, List.takeWhile_cons]
    cases hfiller : Line.isFiller line with
    | true =>
      rw [significant_of_filler hfiller, if_pos (isInside_of_filler hfiller header),
        significant_of_filler hfiller, ih]
    | false =>
      rw [significant_of_not_filler hfiller, List.takeWhile_cons]
      split
      · rw [significant_of_not_filler hfiller, ih]
      · rfl

theorem afterBlock_significant (header : Int) (rest : List Text) :
    afterBlock header (significant rest) = significant (afterBlock header rest) := by
  have hparts : significant (block header rest) ++ significant (afterBlock header rest) =
      significant rest := by
    rw [significant, significant, ← List.filter_append, block_append_afterBlock]
    rfl
  have hall := block_append_afterBlock header (significant rest)
  rw [block_significant] at hall
  exact List.append_cancel_left (hall.trans hparts.symm)

/-- The level of a block is the indent of the first of its lines that count. -/
theorem level?_eq_head? (body : List Text) :
    level? body = (significant body).head?.map Line.indent := by
  induction body with
  | nil => rfl
  | cons line rest ih =>
    rw [level?] at ih ⊢
    rw [List.dropWhile_cons]
    cases hfiller : Line.isFiller line with
    | true => rw [significant_of_filler hfiller, if_pos rfl, ih]
    | false =>
      rw [significant_of_not_filler hfiller, if_neg Bool.false_ne_true]
      rfl

theorem level?_significant (body : List Text) : level? (significant body) = level? body := by
  rw [level?_eq_head?, level?_eq_head?, significant_significant]

end Lines

open Lines (significant)

namespace Tree

/-- Blocks are read as one tree if `f` leads from the level of the one to the level of the
other and, wherever it leads, their lines are read as one. -/
theorem ofBlock_congr {f : Nat → Nat} {body body' : List Text}
    (hlevel : Lines.level? body' = (Lines.level? body).map f)
    (h : ∀ inner : Nat, ofLines (f inner) body' = ofLines inner body) :
    ofBlock body' = ofBlock body := by
  rw [ofBlock, ofBlock, hlevel]
  cases Lines.level? body with
  | none => rfl
  | some inner => exact h inner

/-- The lines that do not count contribute nothing to a tree. -/
theorem ofLines_significant (level : Int) (lines : List Text) :
    ofLines level (significant lines) = ofLines level lines := by
  induction level, lines using ofLines_induction with
  | nil level => rfl
  | filler level line rest hfiller ih =>
    rw [Lines.significant_of_filler hfiller, ofLines_of_filler rest hfiller, ih]
  | shallower level line rest hfiller hlt =>
    rw [Lines.significant_of_not_filler hfiller, ofLines_of_shallower _ hfiller hlt,
      ofLines_of_shallower _ hfiller hlt]
  | deeper level line rest hfiller hgt ih =>
    rw [Lines.significant_of_not_filler hfiller, ofLines_of_deeper _ hfiller hgt,
      ofLines_of_deeper _ hfiller hgt, ih]
  | statement level line rest hfiller hlevel ih ihbody ihafter =>
    have hinner : Lines.level? (significant (Lines.block (Line.indent line) rest)) =
        (Lines.level? (Lines.block (Line.indent line) rest)).map id := by
      rw [Lines.level?_significant, Option.map_id, id_eq]
    have hbody := ofBlock_congr hinner ihbody
    rw [Lines.significant_of_not_filler hfiller, ofLines_of_level _ hfiller hlevel,
      ofLines_of_level _ hfiller hlevel, Lines.block_significant, Lines.afterBlock_significant,
      ih, ihafter, hbody]

end Tree

/-- A program without the lines that do not count. -/
def Text.withoutFillers (code : Text) : Text :=
  ['\n'].intercalate (significant (Lines.ofText code).toList)

theorem Lines.significant_withoutFillers (code : Text) :
    significant (Lines.ofText code.withoutFillers).toList =
      significant (Lines.ofText code).toList := by
  rw [Lines.ofText, Text.withoutFillers]
  by_cases hnone : significant (Lines.ofText code).toList = []
  · -- a text has at least one line, which is blank here
    rw [hnone]
    rfl
  · have hlines : ∀ line ∈ significant (Lines.ofText code).toList, '\n' ∉ line := by
      intro line hline
      exact (Text.mem_splitOn code (List.mem_of_mem_filter hline)).2
    rw [List.splitOn_intercalate '\n' hlines hnone]
    exact significant_significant _

/-- Lines that do not count have no effect: programs with the same other lines, in the
same order, print the same, end alike and leave the same bindings, and so does a program
from which all such lines are taken. -/
theorem Outcome.fillers_have_no_effect (cap : Int) (code : Text) :
    (∀ code' : Text,
      significant (Lines.ofText code').toList = significant (Lines.ofText code).toList →
      ofProgram cap code' = ofProgram cap code ∧
        Environment.ofProgram cap code' = Environment.ofProgram cap code) ∧
    ofProgram cap code.withoutFillers = ofProgram cap code ∧
      Environment.ofProgram cap code.withoutFillers = Environment.ofProgram cap code := by
  have hcongr : ∀ code' : Text,
      significant (Lines.ofText code').toList = significant (Lines.ofText code).toList →
      ofProgram cap code' = ofProgram cap code ∧
        Environment.ofProgram cap code' = Environment.ofProgram cap code := by
    intro code' hlines
    apply ofProgram_congr
    rw [← Tree.ofLines_significant, hlines, Tree.ofLines_significant]
  exact ⟨hcongr, hcongr _ (Lines.significant_withoutFillers code)⟩

/-- A loop whose lines follow one another. -/
def denseLoop : Text := "while a < 2:\n  a = a + 1\n  print(a)".toList

/-- The loop with lines that do not count after its header, inside its body and at its
end, less and more indented than the body. -/
def paddedLoop : Text := "while a < 2:\n# up\n  a = a + 1\n\n    #\n  print(a)\n ".toList

theorem Outcome.paddedLoop_runs_alike :
    significant (Lines.ofText paddedLoop).toList = significant (Lines.ofText denseLoop).toList ∧
    ofProgram (1000 : Int) paddedLoop = ofProgram (1000 : Int) denseLoop ∧
      Environment.ofProgram (1000 : Int) paddedLoop =
        Environment.ofProgram (1000 : Int) denseLoop := by
  have hlines : significant (Lines.ofText paddedLoop).toList =
      significant (Lines.ofText denseLoop).toList := by decide
  exact ⟨hlines, (fillers_have_no_effect 1000 denseLoop).1 paddedLoop hlines⟩

/-! ## Indents -/

namespace Line

/-- The character counts towards an indent. -/
def isIndentation (c : Char) : Bool := c = ' ' || c = '\t'

/-- The second line is the first one with another run of spaces and tabs in front, of the
indent that `f` gives for the old one, and with blanks at its end. -/
inductive Reindents (f : Nat → Nat) : Text → Text → Prop
  | mk {lead lead' body tail : Text} (hlead : lead.all isIndentation = true)
      (hbody : body.head?.any isIndentation = false)
      (hlead' : lead'.all isIndentation = true)
      (hindent : indent lead' = f (indent lead))
      (htail : tail.all Text.isBlank = true) :
      Reindents f (lead ++ body) (lead' ++ body ++ tail)

/-- Spaces and tabs are blanks. -/
theorem isBlank_of_isIndentation {lead : Text} (h : lead.all isIndentation = true) :
    ∀ c ∈ lead, Text.isBlank c = true := by
  intro c hc
  have hc := List.all_eq_true.mp h c hc
  simp only [isIndentation, Bool.or_eq_true, decide_eq_true_eq] at hc
  rcases hc with rfl | rfl
  · rfl
  · rfl

theorem indent_cons (c : Char) (cs : Text) :
    indent (c :: cs) =
      if c = ' ' then indent cs + 1 else if c = '\t' then indent cs + tabWidth else 0 := by
  by_cases hspace : c = ' '
  · rw [if_pos hspace, hspace, indent]
  · by_cases htab : c = '\t'
    · rw [if_neg hspace, if_pos htab, htab, indent]
    · rw [if_neg hspace, if_neg htab, indent]
      · simpa using hspace
      · simpa using htab

/-- What follows the leading spaces and tabs does not change the indent. -/
theorem indent_append {lead body : Text} (hlead : lead.all isIndentation = true)
    (hbody : body.head?.any isIndentation = false) :
    indent (lead ++ body) = indent lead := by
  induction lead with
  | nil =>
    cases body with
    | nil => rfl
    | cons c cs =>
      simp only [List.head?_cons, Option.any_some, isIndentation, Bool.or_eq_false_iff,
        decide_eq_false_iff_not] at hbody
      rw [List.nil_append, indent_cons, if_neg hbody.1, if_neg hbody.2]
      rfl
  | cons c cs ih =>
    rw [List.all_cons, Bool.and_eq_true] at hlead
    rw [List.cons_append, indent_cons, indent_cons, ih hlead.2]

theorem isFiller_blanks_append {lead : Text} (h : ∀ c ∈ lead, Text.isBlank c = true)
    (t : Text) : isFiller (lead ++ t) = isFiller t := by
  rw [isFiller, isFiller, List.dropWhile_append_of_pos h]

theorem isFiller_append_blanks (t : Text) {tail : Text}
    (h : ∀ c ∈ tail, Text.isBlank c = true) : isFiller (t ++ tail) = isFiller t := by
  rw [isFiller, isFiller, List.dropWhile_append]
  cases t.dropWhile Text.isBlank with
  | nil =>
    rw [List.isEmpty_nil, if_pos rfl, Text.dropWhile_blanks h]
  | cons c cs => rfl

/-- A reader of indents takes the second line for the first one: both count or neither
does, they hold the same text, and if they count, `f` leads from indent to indent. -/
structure Matches (f : Nat → Nat) (line line' : Text) : Prop where
  filler_eq : isFiller line' = isFiller line
  strip_eq : Text.strip line' = Text.strip line
  indent_eq : isFiller line = false → indent line' = f (indent line)

theorem Reindents.matches {f : Nat → Nat} {line line' : Text} (h : Reindents f line line') :
    Matches f line line' := by
  obtain @⟨lead, lead', body, tail, hlead, hbody, hlead', hindent, htail⟩ := h
  have hblank := isBlank_of_isIndentation hlead
  have hblank' := isBlank_of_isIndentation hlead'
  have htail := List.all_eq_true.mp htail
  refine ⟨?_, ?_, ?_⟩
  · rw [isFiller_append_blanks _ htail, isFiller_blanks_append hblank',
      isFiller_blanks_append hblank]
  · rw [Text.strip_append_blanks _ htail, Text.strip_blanks_append hblank',
      Text.strip_blanks_append hblank]
  · intro hcounts
    rw [isFiller_blanks_append hblank] at hcounts
    -- a line that counts has a character at which its indent ends
    have hrest : (body ++ tail).head?.any isIndentation = false := by
      cases body with
      | nil => exact absurd hcounts (by simp [isFiller])
      | cons d ds => exact hbody
    rw [List.append_assoc, indent_append hlead' hrest, indent_append hlead hbody, hindent]

theorem Matches.isInside_eq {f : Nat → Nat} (hf : StrictMono f) {line line' : Text}
    (h : Matches f line line') (header : Nat) :
    isInside (f header) line' = isInside header line := by
  rw [isInside, isInside, h.filler_eq]
  cases hfiller : isFiller line with
  | true => rfl
  | false =>
    rw [Bool.false_or, Bool.false_or, h.indent_eq hfiller, decide_eq_decide, Int.ofNat_lt,
      Int.ofNat_lt]
    exact hf.lt_iff_lt

end Line

namespace Lines

variable {f : Nat → Nat} (hf : StrictMono f) {lines lines' : List Text}
  (h : List.Forall₂ (Line.Matches f) lines lines')

include hf h in
/-- Blocks correspond, line by line, and so do the lines that follow them. -/
theorem matches_block (header : Nat) :
    List.Forall₂ (Line.Matches f) (block header lines) (block (f header) lines') ∧
      List.Forall₂ (Line.Matches f) (afterBlock header lines) (afterBlock (f header) lines') := by
  induction h with
  | nil => exact ⟨.nil, .nil⟩
  | @cons line line' rest rest' hline hrest ih =>
    rw [block, block] at ih ⊢
    rw [afterBlock, afterBlock] at ih ⊢
    rw [List.takeWhile_cons, List.takeWhile_cons, List.dropWhile_cons, List.dropWhile_cons,
      hline.isInside_eq hf]
    split
    · exact ⟨.cons hline ih.1, ih.2⟩
    · exact ⟨.nil, .cons hline hrest⟩

include h in
theorem matches_level? : level? lines' = (level? lines).map f := by
  induction h with
  | nil => rfl
  | @cons line line' rest rest' hline hrest ih =>
    rw [level?, level?] at ih ⊢
    rw [List.dropWhile_cons, List.dropWhile_cons, hline.filler_eq]
    cases hfiller : Line.isFiller line with
    | true => exact ih
    | false => exact congrArg some (hline.indent_eq hfiller)

end Lines

/-- Lines that correspond are read as one tree. -/
theorem Tree.ofLines_of_matches {f : Nat → Nat} (hf : StrictMono f) (level : Nat)
    {lines lines' : List Text} (h : List.Forall₂ (Line.Matches f) lines lines') :
    ofLines (f level) lines' = ofLines level lines := by
  -- the two readings go in step: wherever the one is at a level, the other is at its image
  generalize hlevel : (level : Int) = k
  induction k, lines using ofLines_induction generalizing level lines' with
  | nil k =>
    cases h
    rw [ofLines, ofLines]
  | filler k line rest hfiller ih =>
    cases h with
    | cons hline hrest =>
      rw [ofLines_of_filler _ (hline.filler_eq.trans hfiller), ofLines_of_filler _ hfiller]
      exact ih level hrest hlevel
  | shallower k line rest hfiller hlt =>
    cases h with
    | cons hline hrest =>
      have hindent := hline.indent_eq hfiller
      have hlt' : f (Line.indent line) < f level := hf (by omega)
      rw [ofLines_of_shallower _ (hline.filler_eq.trans hfiller) (by omega),
        ofLines_of_shallower _ hfiller hlt]
  | deeper k line rest hfiller hgt ih =>
    cases h with
    | cons hline hrest =>
      have hindent := hline.indent_eq hfiller
      have hgt' : f level < f (Line.indent line) := hf (by omega)
      rw [ofLines_of_deeper _ (hline.filler_eq.trans hfiller) (by omega),
        ofLines_of_deeper _ hfiller hgt]
      exact ih level hrest hlevel
  | statement k line rest hfiller hk ih ihbody ihafter =>
    cases h with
    | @cons _ line' _ rest' hline hrest =>
      have hindent := hline.indent_eq hfiller
      obtain ⟨hblock, hafter⟩ := Lines.matches_block hf hrest (Line.indent line)
      have hbody := ofBlock_congr (Lines.matches_level? hblock) fun inner =>
        ihbody inner inner hblock rfl
      have hlevel' : Line.indent line = level := by omega
      rw [ofLines_of_level _ (hline.filler_eq.trans hfiller) (by rw [hindent, hlevel']),
        ofLines_of_level _ hfiller hk, hline.strip_eq, hindent, hbody, ih level hrest hlevel,
        ihafter level hafter hlevel]

/-- Only the order of indents matters: a program may be indented anew by spaces and tabs
that keep this order and leave the outermost lines where they are, and have blanks at the
ends of its lines.  With the identity for `f` a tab is as good as four spaces; with a
multiple of it a program is widened and, the other way round, narrowed. -/
theorem Outcome.indents_matter_by_order (f : Nat → Nat) (hf : StrictMono f) (hzero : f 0 = 0)
    (cap : Int) (code code' : Text)
    (h : List.Forall₂ (Line.Reindents f) (Lines.ofText code).toList
      (Lines.ofText code').toList) :
    ofProgram cap code' = ofProgram cap code ∧
      Environment.ofProgram cap code' = Environment.ofProgram cap code := by
  have hmatches := h.imp fun _ _ hline => Line.Reindents.matches hline
  have htree := Tree.ofLines_of_matches hf 0 hmatches
  rw [hzero] at htree
  exact ofProgram_congr cap htree

/-- A loop whose body is indented by a tab and by four spaces. -/
def narrowLoop : Text := "while a < 2:\n\ta = a + 1\n    b = a".toList

/-- The loop at twice the width, the tab written as spaces and the spaces as tabs, with
blanks at the ends of two lines. -/
def wideLoop : Text := "while a < 2:\r\n        a = a + 1\n\t\tb = a \r".toList

theorem Outcome.wideLoop_runs_alike :
    List.Forall₂ (Line.Reindents (2 * ·)) (Lines.ofText narrowLoop).toList
      (Lines.ofText wideLoop).toList ∧
    ofProgram (1000 : Int) wideLoop = ofProgram (1000 : Int) narrowLoop ∧
      Environment.ofProgram (1000 : Int) wideLoop =
        Environment.ofProgram (1000 : Int) narrowLoop := by
  have hheader : Line.Reindents (2 * ·) "while a < 2:".toList "while a < 2:\r".toList :=
    @Line.Reindents.mk _ [] [] "while a < 2:".toList ['\r'] rfl rfl rfl rfl rfl
  have htab : Line.Reindents (2 * ·) "\ta = a + 1".toList "        a = a + 1".toList :=
    @Line.Reindents.mk _ ['\t'] "        ".toList "a = a + 1".toList [] rfl rfl rfl rfl rfl
  have hspaces : Line.Reindents (2 * ·) "    b = a".toList "\t\tb = a \r".toList :=
    @Line.Reindents.mk _ "    ".toList ['\t', '\t'] "b = a".toList [' ', '\r'] rfl rfl rfl rfl
      rfl
  have hlines : List.Forall₂ (Line.Reindents (2 * ·)) (Lines.ofText narrowLoop).toList
      (Lines.ofText wideLoop).toList :=
    .cons hheader (.cons htab (.cons hspaces .nil))
  have hdouble : StrictMono (2 * · : Nat → Nat) := fun i j hij => by
    show 2 * i < 2 * j
    omega
  exact ⟨hlines, indents_matter_by_order _ hdouble rfl 1000 narrowLoop wideLoop hlines⟩

end LineScript
