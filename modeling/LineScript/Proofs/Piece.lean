import LineScript.Proofs.PrintCall

set_option autoImplicit false

/-!
# Pieces of a line

Statements are read by cutting: nothing that a statement evaluates, binds or
compares was written by the interpreter.

Proved: every expression of a statement is a contiguous piece of its line
(`Statement.infix_of_mem_expressions`), and so are the names that an assignment
binds, which moreover are stripped and hold neither an equals sign nor a comma
(`Statement.isTarget_of_ofLine`).
-/

namespace LineScript

namespace Text

/-! ## Cuts -/

theorem strip_infix (t : Text) : strip t <:+: t := by
  have hright : strip t <+: t.dropWhile isBlank := ⟨_, stripRight_append _⟩
  exact hright.isInfix.trans (List.dropWhile_suffix _).isInfix

theorem infix_of_cut? {sep t l r : Text} (h : cut? sep t = some (l, r)) :
    l <:+: t ∧ r <:+: t := by
  rw [cut?_eq_some h]
  refine ⟨?_, ⟨l ++ sep, [], by simp⟩⟩
  exact ⟨[], sep ++ r, by simp⟩

/-- A character that a text holds is found there, and not before its first place. -/
theorem cut?_of_mem {d : Char} {t : Text} (h : d ∈ t) :
    ∃ l r, cut? [d] t = some (l, r) ∧ d ∉ l := by
  induction t with
  | nil => exact absurd h (by simp)
  | cons c cs ih =>
    by_cases hc : d = c
    · subst hc
      exact ⟨[], cs, by simp [cut?], by simp⟩
    · have hd : d ∈ cs := by
        rcases List.mem_cons.mp h with he | hm
        · exact absurd he hc
        · exact hm
      obtain ⟨l, r, hcut, hl⟩ := ih hd
      refine ⟨c :: l, r, ?_, by simp [hc, hl]⟩
      simp [cut?, hcut, hc]

/-- A text is cut at the first place of a character. -/
theorem cut?_append_cons {d : Char} {l : Text} (h : d ∉ l) (r : Text) :
    cut? [d] (l ++ d :: r) = some (l, r) := by
  induction l with
  | nil => simp [cut?]
  | cons c l ih =>
    rw [List.mem_cons, not_or] at h
    rw [List.cons_append, cut?, if_neg, ih h.2]
    · rfl
    · simp [h.1]

theorem cut?_eq_none {d : Char} {t : Text} (h : d ∉ t) : cut? [d] t = none := by
  cases hcut : cut? [d] t with
  | none => rfl
  | some p =>
    obtain ⟨l, r⟩ := p
    have ht := cut?_eq_some hcut
    exact absurd (by simp [ht]) h

/-- A part of a split is a piece of the text without the separator. -/
theorem mem_splitOn {d : Char} (t : Text) {part : Text} (h : part ∈ t.splitOn d) :
    part <:+: t ∧ d ∉ part := by
  by_cases hd : d ∈ t
  · obtain ⟨l, r, ht, hl⟩ := List.eq_append_cons_of_mem hd
    rw [ht, List.splitOn_append_cons_self_of_not_mem hl] at h
    rcases List.mem_cons.mp h with rfl | hr
    · exact ⟨⟨[], d :: r, by simp [ht]⟩, hl⟩
    · have hrest := mem_splitOn r hr
      exact ⟨hrest.1.trans ⟨l ++ [d], [], by simp [ht]⟩, hrest.2⟩
  · rw [List.splitOn_eq_singleton hd, List.mem_singleton] at h
    subst h
    exact ⟨List.infix_rfl, hd⟩
termination_by t.length
decreasing_by
  rw [ht, List.length_append, List.length_cons]
  omega

theorem dropTrailing_infix (d : Char) (t : Text) : dropTrailing d t <:+: t := by
  unfold dropTrailing
  split
  · exact (List.dropLast_prefix t).isInfix
  · exact List.infix_rfl

/-- The text is a contiguous piece of one of the lines. -/
def IsPieceOf (lines : List Text) (t : Text) : Prop := ∃ line ∈ lines, t <:+: line

theorem IsPieceOf.part {lines : List Text} {s t : Text} (h : IsPieceOf lines t)
    (hs : s <:+: t) : IsPieceOf lines s := by
  obtain ⟨line, hline, ht⟩ := h
  exact ⟨line, hline, hs.trans ht⟩

end Text

/-! ## Statements -/

/-- The name can be bound by an assignment. -/
structure IsTarget (name : Text) : Prop where
  stripped : Text.strip name = name
  no_equals : '=' ∉ name
  no_comma : ',' ∉ name

theorem Assignment.infix_of_mem_sources {line e : Text}
    (h : e ∈ (Assignment.ofLine line).sources) : e <:+: line := by
  unfold Assignment.ofLine at h
  cases hcut : Text.cut? ['='] line with
  | none =>
    rw [hcut] at h
    simp only [Option.getD_none] at h
    split at h
    · simp only [List.splitOn_nil, List.mem_singleton] at h
      rw [h]
      exact List.nil_infix
    · rw [List.mem_singleton] at h
      rw [h]
      exact List.nil_infix
  | some p =>
    obtain ⟨target, source⟩ := p
    have hsource := (Text.infix_of_cut? hcut).2
    rw [hcut] at h
    simp only [Option.getD_some] at h
    split at h
    · exact (Text.mem_splitOn source h).1.trans hsource
    · rw [List.mem_singleton] at h
      rw [h]
      exact hsource

theorem Assignment.isTarget_of_mem {line x : Text} (hline : '=' ∈ line)
    (h : x ∈ (Assignment.ofLine line).targets) : IsTarget x ∧ x <:+: line := by
  obtain ⟨target, source, hcut, htarget⟩ := Text.cut?_of_mem hline
  have hinfix := (Text.infix_of_cut? hcut).1
  -- a stripped piece of what stands before the equals sign is a name
  have hname : ∀ part, part <:+: target → ',' ∉ part →
      IsTarget (Text.strip part) ∧ Text.strip part <:+: line := by
    intro part hpart hcomma
    have hstrip := Text.strip_infix part
    exact ⟨⟨Text.strip_strip part, fun he => htarget (hpart.mem (hstrip.mem he)),
      fun hc => hcomma (hstrip.mem hc)⟩, hstrip.trans (hpart.trans hinfix)⟩
  rw [Assignment.ofLine, hcut] at h
  simp only [Option.getD_some] at h
  split at h
  · obtain ⟨part, hpart, rfl⟩ := List.mem_map.mp h
    have hp := Text.mem_splitOn target hpart
    exact hname part hp.1 hp.2
  · rename_i hcomma
    rw [List.mem_singleton] at h
    subst h
    exact hname target List.infix_rfl hcomma

theorem printArgument?_infix {line argument : Text} (h : printArgument? line = some argument) :
    argument <:+: line := by
  obtain ⟨call, -, rfl⟩ := PrintCall.exists_of_printArgument? h
  have hline : call.before ++ printOpening ++ call.argument ++ ')' :: call.after =
      call.before ++ (printOpening ++ (call.argument ++ ')' :: call.after)) := by
    simp only [List.append_assoc]
  exact ⟨_, _, hline.trans call.line_eq.symm⟩

theorem conditionAfter_infix (keyword line : Text) : conditionAfter keyword line <:+: line :=
  (Text.strip_infix _).trans ((Text.dropTrailing_infix ':' _).trans
    ((Text.strip_infix _).trans (List.drop_suffix _ _).isInfix))

namespace Statement

/-- The texts that a statement evaluates. -/
def expressions : Statement → List Text
  | .assign a => a.sources
  | .print argument => argument.toList
  | .block _ condition => [condition]
  | .ignored => []

/-- What a statement evaluates is a piece of its line. -/
theorem infix_of_mem_expressions {line e : Text} (h : e ∈ (ofLine line).expressions) :
    e <:+: line := by
  unfold ofLine at h
  split at h
  · exact Assignment.infix_of_mem_sources h
  · split at h
    · exact printArgument?_infix (Option.mem_toList.mp h)
    · split at h
      · rw [expressions, List.mem_singleton] at h
        rw [h]
        exact conditionAfter_infix _ _
      · split at h
        · rw [expressions, List.mem_singleton] at h
          rw [h]
          exact conditionAfter_infix _ _
        · exact absurd h (by simp [expressions])

theorem isPieceOf_of_mem_expressions {lines : List Text} {line e : Text} (hline : line ∈ lines)
    (h : e ∈ (ofLine (Text.strip line)).expressions) : Text.IsPieceOf lines e :=
  ⟨line, hline, (infix_of_mem_expressions h).trans (Text.strip_infix line)⟩

theorem ofLine_eq_assign {line : Text} {a : Assignment} (h : ofLine line = .assign a) :
    '=' ∈ line ∧ a = .ofLine line := by
  unfold ofLine at h
  split at h
  · rename_i hassign
    simp only [isAssignment, Bool.and_eq_true, decide_eq_true_eq] at hassign
    exact ⟨hassign.1.1, (Statement.assign.inj h).symm⟩
  · split at h
    · exact absurd h (by simp)
    · split at h
      · exact absurd h (by simp)
      · split at h
        · exact absurd h (by simp)
        · exact absurd h (by simp)

/-- What an assignment binds is a name, and a piece of its line. -/
theorem isTarget_of_ofLine {line x : Text} {a : Assignment} (h : ofLine line = .assign a)
    (hx : x ∈ a.targets) : IsTarget x ∧ x <:+: line := by
  obtain ⟨hline, rfl⟩ := ofLine_eq_assign h
  exact Assignment.isTarget_of_mem hline hx

end Statement

/-! ## Conditions -/

/-- The sides of a comparison are pieces of the condition. -/
theorem Condition.infix_of_split? {c l r : Text} {op : Comparison}
    (h : Condition.split? c = some (op, l, r)) : l <:+: c ∧ r <:+: c := by
  obtain ⟨o, _, ho⟩ := List.exists_of_findSome?_eq_some h
  cases hs : Text.cut? o.symbol c with
  | none => simp [hs] at ho
  | some p =>
    simp only [hs, Option.map_some, Option.some.injEq, Prod.mk.injEq] at ho
    obtain ⟨rfl, rfl, rfl⟩ := ho
    exact Text.infix_of_cut? hs

end LineScript
