import LineScript.Proofs.Ending
import Mathlib.Logic.ExistsUnique
import Mathlib.Logic.IsEmpty.Defs

set_option autoImplicit false

/-!
# Which call a line prints

A line may hold several openings, any number of parentheses and, if it does not come from a
program, line feeds.  A call in it is an opening, an argument without a line feed and a closing
parenthesis, with anything around them (`PrintCall`), so calls may share their opening or lie
inside each other.  The search for what to print tries one opening after the other, and for each
the last parenthesis before the next line feed.

Proved: the search finds the call that starts first and, of those that start there, the one with
the longest argument, and it fails only if there is no call (`PrintCall.exists_of_printArgument?`,
`PrintCall.isEmpty_of_printArgument?`); so this call, and no other, decides what a line prints
(`Run.prints_leading_call`).
-/

namespace LineScript

namespace Text

/-! ## The last place of a character -/

theorem beforeLast?_eq_none_iff {d : Char} {t : Text} : beforeLast? d t = none ↔ d ∉ t := by
  induction t with
  | nil => simp [beforeLast?]
  | cons c cs ih =>
    rw [beforeLast?, List.mem_cons, not_or, ← ih]
    cases beforeLast? d cs with
    | none => simp [eq_comm]
    | some kept => simp

/-- A text is cut off at the last place of a character. -/
theorem beforeLast?_eq_some_iff {d : Char} {t kept : Text} :
    beforeLast? d t = some kept ↔ ∃ rest, t = kept ++ d :: rest ∧ d ∉ rest := by
  constructor
  · intro h
    induction t generalizing kept with
    | nil => exact absurd h (by simp [beforeLast?])
    | cons c cs ih =>
      rw [beforeLast?] at h
      split at h
      · rename_i kept' hkept
        obtain rfl := Option.some.inj h
        obtain ⟨rest, rfl, hrest⟩ := ih hkept
        exact ⟨rest, rfl, hrest⟩
      · rename_i hnone
        split at h
        · rename_i hc
          obtain rfl := Option.some.inj h
          exact ⟨cs, by rw [hc, List.nil_append], beforeLast?_eq_none_iff.mp hnone⟩
        · exact absurd h (by simp)
  · rintro ⟨rest, rfl, hrest⟩
    induction kept with
    | nil => rw [List.nil_append, beforeLast?, beforeLast?_eq_none_iff.mpr hrest, if_pos rfl]
    | cons c kept ih => rw [List.cons_append, beforeLast?, ih]

/-- No place of a character comes after its last one. -/
theorem length_le_of_last {d : Char} {l r kept rest : Text} (h : l ++ d :: r = kept ++ d :: rest)
    (hrest : d ∉ rest) : l.length ≤ kept.length := by
  rcases List.append_eq_append_iff.mp h with ⟨between, rfl, -⟩ | ⟨between, rfl, hafter⟩
  · rw [List.length_append]
    exact Nat.le_add_right _ _
  · cases between with
    | nil => simp
    | cons c between =>
      obtain ⟨rfl, rfl⟩ := List.cons.inj hafter
      exact absurd (List.mem_append_right between List.mem_cons_self) hrest

theorem strip_eq_nil_iff {t : Text} : strip t = [] ↔ ∀ c ∈ t, isBlank c = true := by
  constructor
  · intro h c hc
    cases hblank : isBlank c with
    | true => rfl
    | false =>
      obtain ⟨l, r, rfl⟩ := List.append_of_mem hc
      rw [strip_append_cons l r hblank] at h
      exact absurd h (by simp)
  · exact fun h => strip_append_blanks [] h

end Text

/-! ## Calls -/

/-- A place at which a line reads as a call: an opening, an argument on one line, and a closing
parenthesis. -/
structure PrintCall (line : Text) where
  before : Text
  argument : Text
  after : Text
  line_eq : line = before ++ (printOpening ++ (argument ++ ')' :: after))
  onOneLine : '\n' ∉ argument

namespace PrintCall

/-- No call starts before this one, and none that starts where it does has a longer argument. -/
structure IsLeading {line : Text} (call : PrintCall line) : Prop where
  first : ∀ other : PrintCall line, call.before.length ≤ other.before.length
  longest : ∀ other : PrintCall line, other.before = call.before →
    other.argument.length ≤ call.argument.length

/-- There is one leading call at most. -/
theorem IsLeading.unique {line : Text} {call other : PrintCall line} (hcall : call.IsLeading)
    (hother : other.IsLeading) : call = other := by
  obtain ⟨before, argument, after, hline, honeLine⟩ := call
  obtain ⟨before', argument', after', hline', honeLine'⟩ := other
  have hbefore := Nat.le_antisymm (hcall.first ⟨_, _, _, hline', honeLine'⟩)
    (hother.first ⟨_, _, _, hline, honeLine⟩)
  obtain ⟨rfl, hrest⟩ := List.append_inj (hline.symm.trans hline') hbefore
  have hargument := Nat.le_antisymm (hother.longest ⟨_, _, _, hline, honeLine⟩ rfl)
    (hcall.longest ⟨_, _, _, hline', honeLine'⟩ rfl)
  obtain ⟨rfl, hafter⟩ := List.append_inj (List.append_cancel_left hrest) hargument
  obtain rfl := (List.cons.inj hafter).2
  rfl

/-- The call, with one character more before it. -/
def later {line : Text} (c : Char) (call : PrintCall line) : PrintCall (c :: line) where
  before := c :: call.before
  argument := call.argument
  after := call.after
  line_eq := congrArg (c :: ·) call.line_eq
  onOneLine := call.onOneLine

/-- A call starts with the line, or it is a call of what follows the first character. -/
theorem starts_or_later {c : Char} {line : Text} (call : PrintCall (c :: line)) :
    call.before = [] ∨ ∃ rest : PrintCall line, call = rest.later c := by
  obtain ⟨before, argument, after, hline, honeLine⟩ := call
  cases before with
  | nil => exact Or.inl rfl
  | cons d before =>
    obtain ⟨rfl, hrest⟩ := List.cons.inj hline
    exact Or.inr ⟨⟨before, argument, after, hrest, honeLine⟩, rfl⟩

/-- If no call starts with the line, the first character does not matter. -/
theorem IsLeading.later {c : Char} {line : Text} {call : PrintCall line} (h : call.IsLeading)
    (hstart : ∀ other : PrintCall (c :: line), other.before ≠ []) : (call.later c).IsLeading where
  first other := by
    obtain hnil | ⟨rest, rfl⟩ := other.starts_or_later
    · exact absurd hnil (hstart other)
    · exact Nat.succ_le_succ (h.first rest)
  longest other hother := by
    obtain hnil | ⟨rest, rfl⟩ := other.starts_or_later
    · exact absurd hnil (hstart other)
    · exact h.longest rest (List.cons.inj hother).2

/-! ## Calls that start with the line -/

/-- What the search tries at the start of a line: the argument between an opening there and the
last parenthesis on its line. -/
def startArgument? (line : Text) : Option Text :=
  if printOpening.isPrefixOf line then
    Text.beforeLast? ')' ((line.drop printOpening.length).takeWhile (· ≠ '\n'))
  else none

/-- After an opening, the line goes on with the argument and the parenthesis. -/
theorem takeWhile_of_start {line : Text} (call : PrintCall line) (hstart : call.before = []) :
    (line.drop printOpening.length).takeWhile (· ≠ '\n') =
      call.argument ++ ')' :: call.after.takeWhile (· ≠ '\n') := by
  have hdrop : line.drop printOpening.length = call.argument ++ ')' :: call.after := by
    rw [congrArg (List.drop _) call.line_eq, hstart, List.nil_append, List.drop_left]
  have hargument : ∀ c ∈ call.argument, decide (c ≠ '\n') = true := by
    intro c hc
    rw [decide_eq_true_eq]
    rintro rfl
    exact call.onOneLine hc
  rw [hdrop, List.takeWhile_append_of_pos hargument, List.takeWhile_cons_of_pos (by decide)]

/-- A call that starts with the line is leading if its parenthesis is the last on its line. -/
theorem isLeading_of_last {line : Text} {call : PrintCall line} (hstart : call.before = [])
    (hlast : ')' ∉ call.after.takeWhile (· ≠ '\n')) : call.IsLeading where
  first other := by
    rw [hstart]
    exact Nat.zero_le _
  longest other hother := by
    have hline := call.takeWhile_of_start hstart
    rw [other.takeWhile_of_start (hother.trans hstart)] at hline
    exact Text.length_le_of_last hline hlast

theorem ne_nil_of_startArgument? {line : Text} (h : startArgument? line = none)
    (call : PrintCall line) : call.before ≠ [] := by
  intro hstart
  have hopens : printOpening.isPrefixOf line = true := by
    rw [List.isPrefixOf_iff_prefix]
    exact ⟨_, by rw [call.line_eq, hstart, List.nil_append]⟩
  rw [startArgument?, if_pos hopens, Text.beforeLast?_eq_none_iff,
    call.takeWhile_of_start hstart] at h
  exact h (List.mem_append_right _ List.mem_cons_self)

/-- The last parenthesis on the line of an opening closes the longest argument. -/
theorem exists_of_startArgument? {line argument : Text}
    (h : startArgument? line = some argument) :
    ∃ call : PrintCall line, call.IsLeading ∧ call.argument = argument := by
  rw [startArgument?] at h
  split at h
  · rename_i hopens
    obtain ⟨rest, rfl⟩ := List.isPrefixOf_iff_prefix.mp hopens
    obtain ⟨tail, htail, hlast⟩ := Text.beforeLast?_eq_some_iff.mp h
    have hrest : rest = argument ++ ')' :: (tail ++ rest.dropWhile (· ≠ '\n')) := by
      rw [List.drop_left] at htail
      rw [← List.cons_append, ← List.append_assoc, ← htail, List.takeWhile_append_dropWhile]
    have honeLine : '\n' ∉ argument := by
      intro hmem
      have hbreak := htail ▸ List.mem_append_left (')' :: tail) hmem
      exact absurd (List.all_eq_true.mp List.all_takeWhile _ hbreak) (by decide)
    let call : PrintCall (printOpening ++ rest) :=
      ⟨[], argument, _, congrArg (printOpening ++ ·) hrest, honeLine⟩
    have hafter := List.append_cancel_left ((call.takeWhile_of_start rfl).symm.trans htail)
    rw [← (List.cons.inj hafter).2] at hlast
    exact ⟨call, isLeading_of_last rfl hlast, rfl⟩
  · exact absurd h (by simp)

/-! ## The search -/

/-- The search tries the start of the line, and then what follows the first character. -/
theorem printArgument?_cons (c : Char) (line : Text) :
    printArgument? (c :: line) = (startArgument? (c :: line)).or (printArgument? line) := by
  rw [printArgument?, startArgument?]
  split
  · cases Text.beforeLast? ')' (((c :: line).drop printOpening.length).takeWhile (· ≠ '\n')) with
    | none => rfl
    | some argument => rfl
  · rfl

/-- A search that fails has passed no call. -/
theorem isEmpty_of_printArgument? {line : Text} (h : printArgument? line = none) :
    IsEmpty (PrintCall line) := by
  induction line with
  | nil => exact ⟨fun call => absurd call.line_eq (by simp)⟩
  | cons c line ih =>
    rw [printArgument?_cons, Option.or_eq_none_iff] at h
    refine ⟨fun call => ?_⟩
    obtain hstart | ⟨rest, -⟩ := call.starts_or_later
    · exact ne_nil_of_startArgument? h.1 call hstart
    · exact (ih h.2).false rest

/-- What the search finds is the argument of the leading call. -/
theorem exists_of_printArgument? {line argument : Text} (h : printArgument? line = some argument) :
    ∃ call : PrintCall line, call.IsLeading ∧ call.argument = argument := by
  induction line with
  | nil => exact absurd h (by simp [printArgument?])
  | cons c line ih =>
    rw [printArgument?_cons, Option.or_eq_some_iff] at h
    obtain hstart | ⟨hnone, hrest⟩ := h
    · exact exists_of_startArgument? hstart
    · obtain ⟨call, hleading, hargument⟩ := ih hrest
      exact ⟨call.later c, hleading.later (ne_nil_of_startArgument? hnone), hargument⟩

theorem exists_argument {line : Text} (call : PrintCall line) :
    ∃ argument, printArgument? line = some argument := by
  refine Option.ne_none_iff_exists'.mp fun hnone => ?_
  exact (isEmpty_of_printArgument? hnone).false call

/-- A line with a call has a leading one. -/
theorem exists_isLeading {line : Text} (call : PrintCall line) :
    ∃ leading : PrintCall line, leading.IsLeading := by
  obtain ⟨argument, hfound⟩ := call.exists_argument
  obtain ⟨leading, hleading, -⟩ := exists_of_printArgument? hfound
  exact ⟨leading, hleading⟩

theorem IsLeading.printArgument?_eq {line : Text} {call : PrintCall line} (h : call.IsLeading) :
    printArgument? line = some call.argument := by
  obtain ⟨argument, hfound⟩ := call.exists_argument
  obtain ⟨found, hleading, rfl⟩ := exists_of_printArgument? hfound
  rw [hfound, h.unique hleading]

/-- Without line feeds, a line that starts with an opening is one call, up to the last
parenthesis. -/
theorem isLeading_iff_of_opens {line : Text} (hopens : printOpening <+: line)
    (honeLine : '\n' ∉ line) (call : PrintCall line) :
    call.IsLeading ↔
      line = printOpening ++ (call.argument ++ ')' :: call.after) ∧ ')' ∉ call.after := by
  -- a parenthesis that is last of all is last on its line
  have hleading : ∀ whole : PrintCall line, whole.before = [] → ')' ∉ whole.after →
      whole.IsLeading := by
    intro whole hstart hlast
    exact isLeading_of_last hstart fun hmem => hlast ((List.takeWhile_prefix _).mem hmem)
  constructor
  · intro h
    obtain ⟨rest, rfl⟩ := hopens
    have hcloses : ')' ∈ rest := by
      have hmem : ')' ∈ printOpening ++ rest := by
        rw [call.line_eq]
        simp
      exact (List.mem_append.mp hmem).resolve_left (by decide)
    cases hcut : Text.beforeLast? ')' rest with
    | none => exact absurd hcloses (Text.beforeLast?_eq_none_iff.mp hcut)
    | some argument =>
      obtain ⟨after, rfl, hlast⟩ := Text.beforeLast?_eq_some_iff.mp hcut
      have hargument : '\n' ∉ argument := by
        intro hmem
        exact honeLine (List.mem_append_right _ (List.mem_append_left _ hmem))
      obtain rfl := h.unique (hleading ⟨[], argument, after, rfl, hargument⟩ rfl hlast)
      exact ⟨rfl, hlast⟩
  · rintro ⟨hline, hlast⟩
    exact hleading call (List.self_eq_append_left.mp (hline.symm.trans call.line_eq)) hlast

end PrintCall

/-! ## What a line prints -/

namespace Run

section

variable (budget : Nat) {line : Text} (s : State)

/-- A line without a call prints nothing. -/
theorem print_of_isEmpty (h : IsEmpty (PrintCall line)) :
    print budget (printArgument? line) s = .ok () s := by
  cases hfound : printArgument? line with
  | none => rfl
  | some argument =>
    obtain ⟨call, -⟩ := PrintCall.exists_of_printArgument? hfound
    exact (h.false call).elim

/-- A line with a call prints the argument of the leading one. -/
theorem print_of_isLeading {call : PrintCall line} (h : call.IsLeading) :
    print budget (printArgument? line) s =
      proceed s (fun entry => .ok () { s with output := s.output.push entry })
        (entryOf s.env budget call.argument) := by
  rw [h.printArgument?_eq, print_apply]

end

/-- A line prints nothing, and without a fault, exactly if it has no call.  Else it has one
leading call, and adds one entry to the output, unless a fault ends the evaluation: an empty one if
the argument of the leading call is blank, or the text of its value.  If the line has no line feed
and starts with an opening, the leading call is the line up to the last parenthesis. -/
theorem prints_leading_call (budget : Nat) (line : Text) (s : State) :
    (print budget (printArgument? line) s = .ok () s ↔ IsEmpty (PrintCall line)) ∧
    (Nonempty (PrintCall line) → ∃! call : PrintCall line, call.IsLeading) ∧
    (∀ call : PrintCall line, call.IsLeading →
      ((∀ c ∈ call.argument, Text.isBlank c = true) →
        print budget (printArgument? line) s =
          .ok () { s with output := s.output.push [] }) ∧
      ((∃ c ∈ call.argument, Text.isBlank c = false) →
        print budget (printArgument? line) s =
          proceed s (fun entry => .ok () { s with output := s.output.push entry })
            (Expression.eval s.env budget (Text.strip call.argument) >>= Value.written))) ∧
    (printOpening <+: line → '\n' ∉ line → ∀ call : PrintCall line,
      (call.IsLeading ↔
        line = printOpening ++ (call.argument ++ ')' :: call.after) ∧ ')' ∉ call.after)) := by
  refine ⟨⟨?_, print_of_isEmpty budget s⟩, ?_, ?_, PrintCall.isLeading_iff_of_opens⟩
  · intro hprint
    refine ⟨fun call => ?_⟩
    obtain ⟨leading, hleading⟩ := call.exists_isLeading
    rw [print_of_isLeading budget s hleading] at hprint
    cases hentry : entryOf s.env budget leading.argument with
    | error f =>
      rw [hentry] at hprint
      exact absurd hprint (by simp [proceed])
    | ok entry =>
      rw [hentry] at hprint
      have houtput := congrArg State.output (EStateM.Result.ok.inj hprint).2
      exact Array.push_ne_self houtput
  · rintro ⟨call⟩
    obtain ⟨leading, hleading⟩ := call.exists_isLeading
    exact ⟨leading, hleading, fun other hother => hother.unique hleading⟩
  · intro call hleading
    rw [print_of_isLeading budget s hleading, entryOf]
    constructor
    · intro hblank
      rw [if_pos (Text.strip_eq_nil_iff.mpr hblank)]
      rfl
    · rintro ⟨c, hc, hsolid⟩
      have hcontent : Text.strip call.argument ≠ [] := by
        intro hnil
        rw [Text.strip_eq_nil_iff.mp hnil c hc] at hsolid
        exact absurd hsolid (by decide)
      rw [if_neg hcontent]

/-- A text in which the first opening is not closed on its line, and the second twice. -/
def manyOpenings : Text := "print(1\nand print( 'two) print(3' ) or\nprint(4)".toList

/-- A line with a blank argument, which ends with an opening. -/
def blankLine : Text := "print(\t )  print(".toList

/-- The call of the line. -/
def blankCall : PrintCall blankLine where
  before := []
  argument := "\t ".toList
  after := "  print(".toList
  line_eq := by decide
  onOneLine := by decide

theorem manyOpenings_prints_second :
    (∃! call : PrintCall manyOpenings, call.IsLeading) ∧
    print nestingLimit (printArgument? manyOpenings) {} =
      .ok () { output := #["two) print(3".toList] } ∧
    blankCall.IsLeading ∧
    print nestingLimit (printArgument? blankLine) {} = .ok () { output := #[[]] } := by
  obtain ⟨-, hone, hmany, -⟩ := prints_leading_call nestingLimit manyOpenings {}
  obtain ⟨-, -, hblank, hline⟩ := prints_leading_call nestingLimit blankLine {}
  -- any call will do, such as the one that starts inside the quotes
  have hcall : Nonempty (PrintCall manyOpenings) :=
    ⟨⟨"print(1\nand print( 'two) ".toList, "3' ".toList, " or\nprint(4)".toList,
      by decide, by decide⟩⟩
  obtain ⟨call, hleading, -⟩ := hone hcall
  have hargument : call.argument = " 'two) print(3' ".toList :=
    Option.some.inj (hleading.printArgument?_eq.symm.trans (by decide))
  have hsolid : ∃ c ∈ call.argument, Text.isBlank c = false :=
    ⟨'t', by rw [hargument]; decide, by decide⟩
  have hblankCall : blankCall.IsLeading :=
    (hline (by decide) (by decide) blankCall).mpr ⟨by decide, by decide⟩
  have hblanks : ∀ c ∈ blankCall.argument, Text.isBlank c = true := Text.strip_eq_nil_iff.mp rfl
  refine ⟨hone hcall, ?_, hblankCall, (hblank blankCall hblankCall).1 hblanks⟩
  rw [(hmany call hleading).2 hsolid, hargument]
  rfl

end Run

end LineScript
