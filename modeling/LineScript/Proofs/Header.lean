import LineScript.Proofs.ChainValue
import LineScript.Proofs.Tree

set_option autoImplicit false

/-!
# Comparisons in headers

A condition is searched for six signs that overlap: `>=` holds `>`, and `==` shares its
character with three others.  A sign that stands between two sides without any of these
characters is nevertheless the one that is found, because each sign before it in the search
has a character more often than the text does.

The search comes after the line was asked whether it is an assignment, and that question
looks at the same characters: a header with `>=` or `<=` never gets so far.

Proved: a condition is split where its sign is written (`Condition.split?_written`), so it
compares the values of its sides (`Condition.eval_written`), and to what test each of the six
signs puts them, in a condition and in a header (`Run.comparison_headers`).
-/

namespace LineScript

namespace Text

/-! ## Cuts at a longer separator -/

/-- A separator that has a character more often than the text does not occur in it. -/
theorem cut?_eq_none_of_count {sep t : Text} {c : Char} (h : t.count c < sep.count c) :
    cut? sep t = none := by
  cases hcut : cut? sep t with
  | none => rfl
  | some p =>
    obtain ⟨l, r⟩ := p
    have hcount := congrArg (List.count c) (cut?_eq_some hcut)
    rw [List.count_append, List.count_append] at hcount
    omega

theorem occurs_eq_false_of_count {sep t : Text} {c : Char} (h : t.count c < sep.count c) :
    occurs sep t = false := by
  rw [occurs, cut?_eq_none_of_count h]
  rfl

/-- A text is cut at a separator whose first character does not stand before it. -/
theorem cut?_append {c : Char} {l : Text} (h : c ∉ l) (cs r : Text) :
    cut? (c :: cs) (l ++ (c :: cs) ++ r) = some (l, r) := by
  induction l with
  | nil =>
    have hprefix : (c :: cs).isPrefixOf (c :: (cs ++ r)) = true :=
      List.isPrefixOf_iff_prefix.mpr ⟨r, rfl⟩
    rw [List.nil_append, List.cons_append, cut?, if_pos hprefix]
    simp
  | cons d l ih =>
    rw [List.mem_cons, not_or] at h
    have hprefix : ¬ (c :: cs).isPrefixOf (d :: (l ++ (c :: cs) ++ r)) = true := by
      simp [h.1]
    rw [List.cons_append, List.cons_append, cut?, if_neg hprefix, ih h.2]
    rfl

/-- A separator without blanks keeps apart the two ends at which a text is stripped. -/
theorem strip_append_append (l r : Text) {sep : Text} (hne : sep ≠ [])
    (h : ∀ c ∈ sep, isBlank c = false) :
    strip (l ++ sep ++ r) = l.dropWhile isBlank ++ sep ++ stripRight r := by
  have hright : ∀ cs : Text, (∀ c ∈ cs, isBlank c = false) →
      stripRight (cs ++ r) = cs ++ stripRight r := by
    intro cs hcs
    induction cs with
    | nil => rfl
    | cons c cs ih =>
      rw [List.forall_mem_cons] at hcs
      have hfirst := stripRight_append_cons [] (cs ++ r) hcs.1
      rwa [List.nil_append, List.nil_append, ih hcs.2] at hfirst
  cases sep with
  | nil => exact absurd rfl hne
  | cons c cs =>
    rw [List.forall_mem_cons] at h
    rw [List.append_assoc, List.cons_append, strip_append_cons l (cs ++ r) h.1, hright cs h.2,
      List.append_assoc, List.cons_append]

end Text

/-! ## Signs and sides -/

namespace Comparison

/-- The characters that comparisons are written with. -/
def signs : List Char := ['<', '>', '=', '!']

/-- The text holds none of these characters. -/
def IsSide (t : Text) : Prop := ∀ c ∈ signs, c ∉ t

instance (t : Text) : Decidable (IsSide t) := List.decidableBAll (fun c => c ∉ t) signs

/-- Put the values of two texts to a test. -/
def between (test : Value → Value → Bool) (env : Environment) (budget : Nat) (l r : Text) :
    Except Fault Bool := do
  let v ← Expression.eval env budget l
  let w ← Expression.eval env budget r
  return test v w

theorem IsSide.count {t : Text} (h : IsSide t) {c : Char} (hc : c ∈ signs) : t.count c = 0 :=
  List.count_eq_zero.mpr (h c hc)

theorem IsSide.of_sublist {t t' : Text} (h : IsSide t) (hsub : t'.Sublist t) : IsSide t' :=
  fun c hc hmem => h c hc (hsub.mem hmem)

theorem isSide_of_blanks {t : Text} (h : ∀ c ∈ t, Text.isBlank c = true) : IsSide t := by
  have hsigns : signs.all (fun c => !Text.isBlank c) = true := by decide
  intro c hc hmem
  have hsign := List.all_eq_true.mp hsigns c hc
  rw [h c hmem] at hsign
  exact absurd hsign (by decide)

/-- Between two sides the characters of a sign stand as often as in the sign. -/
theorem count_written {l r : Text} (hl : IsSide l) (hr : IsSide r) (op : Comparison) {c : Char}
    (hc : c ∈ signs) : (l ++ op.symbol ++ r).count c = op.symbol.count c := by
  rw [List.count_append, List.count_append, hl.count hc, hr.count hc, Nat.zero_add, Nat.add_zero]

/-- A sign is found at its first character. -/
theorem cut?_written {l : Text} (hl : IsSide l) (r : Text) (op : Comparison) :
    Text.cut? op.symbol (l ++ op.symbol ++ r) = some (l, r) := by
  cases op with
  | atLeast => exact Text.cut?_append (hl '>' (by decide)) _ r
  | atMost => exact Text.cut?_append (hl '<' (by decide)) _ r
  | greater => exact Text.cut?_append (hl '>' (by decide)) _ r
  | less => exact Text.cut?_append (hl '<' (by decide)) _ r
  | equal => exact Text.cut?_append (hl '=' (by decide)) _ r
  | unequal => exact Text.cut?_append (hl '!' (by decide)) _ r

/-- Every sign that is searched for earlier has one of the characters more often. -/
theorem exists_earlier (op : Comparison) :
    ∃ before after, all = before ++ op :: after ∧ ∀ o ∈ before,
      signs.any (fun c => op.symbol.count c < o.symbol.count c) = true := by
  cases op with
  | atLeast => exact ⟨[], _, rfl, by decide⟩
  | atMost => exact ⟨[.atLeast], _, rfl, by decide⟩
  | greater => exact ⟨[.atLeast, .atMost], _, rfl, by decide⟩
  | less => exact ⟨[.atLeast, .atMost, .greater], _, rfl, by decide⟩
  | equal => exact ⟨[.atLeast, .atMost, .greater, .less], _, rfl, by decide⟩
  | unequal => exact ⟨[.atLeast, .atMost, .greater, .less, .equal], _, rfl, by decide⟩

/-- Blanks are stripped off the sides and never off the sign. -/
theorem strip_written (op : Comparison) (l r : Text) :
    Text.strip (l ++ op.symbol ++ r) =
      l.dropWhile Text.isBlank ++ op.symbol ++ Text.stripRight r := by
  have hsolid : op.symbol.all (fun c => !Text.isBlank c) = true := by cases op <;> decide
  refine Text.strip_append_append l r (by cases op <;> decide) ?_
  intro c hc
  simpa using List.all_eq_true.mp hsolid c hc

end Comparison

namespace Condition

section

variable {l r : Text} (hl : Comparison.IsSide l) (hr : Comparison.IsSide r)
include hl hr

/-- A condition is split at the sign that stands between its sides. -/
theorem split?_written (op : Comparison) :
    split? (l ++ op.symbol ++ r) = some (op, l, r) := by
  obtain ⟨before, after, hall, hbefore⟩ := op.exists_earlier
  have hnone : before.findSome? (fun o => (Text.cut? o.symbol (l ++ op.symbol ++ r)).map
      fun p => (o, p.1, p.2)) = none := by
    rw [List.findSome?_eq_none_iff]
    intro o ho
    obtain ⟨c, hc, hmore⟩ := List.any_eq_true.mp (hbefore o ho)
    rw [decide_eq_true_eq, ← Comparison.count_written hl hr op hc] at hmore
    rw [Text.cut?_eq_none_of_count hmore, Option.map_none]
  rw [split?, hall, List.findSome?_append, hnone, Option.none_or, List.findSome?_cons,
    Comparison.cut?_written hl r op]
  rfl

/-- A condition compares the values of its sides. -/
theorem eval_written (op : Comparison) (env : Environment) (budget : Nat) :
    eval env budget (l ++ op.symbol ++ r) = Comparison.between op.holds env budget l r := by
  have hleft : Comparison.IsSide (l.dropWhile Text.isBlank) :=
    hl.of_sublist (List.dropWhile_sublist _)
  have hright : Comparison.IsSide (Text.stripRight r) :=
    hr.of_sublist (List.IsPrefix.sublist ⟨_, Text.stripRight_append r⟩)
  rw [eval, Comparison.strip_written, split?_written hleft hright, Comparison.between,
    ← Expression.eval_congr_strip env budget (Text.strip_dropWhile l),
    ← Expression.eval_congr_strip env budget (Text.strip_stripRight r)]

end

end Condition

/-! ## Lines -/

namespace Comparison

theorem IsSide.append {t t' : Text} (h : IsSide t) (h' : IsSide t') : IsSide (t ++ t') := by
  intro c hc hmem
  rcases List.mem_append.mp hmem with hmem | hmem
  · exact h c hc hmem
  · exact h' c hc hmem

/-- Only `>=` and `<=` make an assignment of a line. -/
theorem isAssignment_written {l r : Text} (hl : IsSide l) (hr : IsSide r) (op : Comparison) :
    isAssignment (l ++ op.symbol ++ r) = decide (op = .atLeast ∨ op = .atMost) := by
  have hcount : ∀ c ∈ signs, (l ++ op.symbol ++ r).count c = op.symbol.count c :=
    fun c => count_written hl hr op
  have habsent : op.symbol.count '=' = 0 → isAssignment (l ++ op.symbol ++ r) = false := by
    intro h
    have hequals : '=' ∉ l ++ op.symbol ++ r := by
      rw [← List.count_eq_zero, hcount '=' (by decide), h]
    rw [isAssignment, decide_eq_false hequals, Bool.false_and, Bool.false_and]
  have hsingle : op.symbol.count '=' = 1 → op.symbol.count '!' = 0 →
      isAssignment (l ++ op.symbol ++ r) = true := by
    intro hone hnone
    have hequals : '=' ∈ l ++ op.symbol ++ r := by
      rw [← List.count_pos_iff, hcount '=' (by decide), hone]
      exact Nat.one_pos
    have hequal : Text.occurs "==".toList (l ++ op.symbol ++ r) = false := by
      refine Text.occurs_eq_false_of_count (c := '=') ?_
      rw [hcount '=' (by decide), hone]
      decide
    have hunequal : Text.occurs "!=".toList (l ++ op.symbol ++ r) = false := by
      refine Text.occurs_eq_false_of_count (c := '!') ?_
      rw [hcount '!' (by decide), hnone]
      decide
    rw [isAssignment, decide_eq_true hequals, hequal, hunequal]
    rfl
  have hwritten : Text.occurs op.symbol (l ++ op.symbol ++ r) = true := by
    rw [Text.occurs, cut?_written hl r op]
    rfl
  cases op with
  | atLeast => exact hsingle (by decide) (by decide)
  | atMost => exact hsingle (by decide) (by decide)
  | greater => exact habsent (by decide)
  | less => exact habsent (by decide)
  | equal =>
    rw [isAssignment, show "==".toList = equal.symbol from rfl, hwritten]
    simp
  | unequal =>
    rw [isAssignment, show "!=".toList = unequal.symbol from rfl, hwritten]
    simp

/-- The sides of a header, and the blanks around it and before its colon. -/
structure Header where
  left : Text
  right : Text
  lead : Text := []
  gap : Text := []
  tail : Text := []
  isSide_left : IsSide left := by decide
  isSide_right : IsSide right := by decide
  blank_lead : lead.all Text.isBlank = true := by decide
  blank_gap : gap.all Text.isBlank = true := by decide
  blank_tail : tail.all Text.isBlank = true := by decide

namespace Header

variable (h : Header)

/-- The header with a sign, without blanks at its ends. -/
def body (sign : Text) : Text := "if ".toList ++ (h.left ++ sign ++ h.right ++ h.gap ++ [':'])

/-- The header with a sign, as it is written. -/
def line (sign : Text) : Text := h.lead ++ h.body sign ++ h.tail

/-- The blanks at the ends of a header are stripped off. -/
theorem strip_line (sign : Text) : Text.strip (h.line sign) = h.body sign := by
  rw [line, Text.strip_append_blanks _ (List.all_eq_true.mp h.blank_tail),
    Text.strip_blanks_append (List.all_eq_true.mp h.blank_lead)]
  apply Text.strip_eq_self
  · intro c hc
    obtain rfl : 'i' = c := Option.some.inj hc
    decide
  · intro c hc
    rw [body, ← List.append_assoc, List.getLast?_concat] at hc
    obtain rfl : ':' = c := Option.some.inj hc
    decide

/-- A header is a sign between two sides, too. -/
theorem body_eq (sign : Text) :
    h.body sign = "if ".toList ++ h.left ++ sign ++ (h.right ++ h.gap ++ [':']) := by
  simp only [body, List.append_assoc]

end Header

end Comparison

/-- The condition of a header ends before its colon. -/
theorem conditionAfter_colon (keyword t : Text) :
    conditionAfter keyword (keyword ++ (t ++ [':'])) = Text.strip t := by
  have hcolon : Text.isBlank ':' = false := by decide
  rw [conditionAfter, List.drop_left, Text.strip_append_cons t [] hcolon]
  simp only [Text.stripRight, List.reverse_nil, List.dropWhile_nil, Text.dropTrailing,
    List.getLast?_concat, if_true, List.dropLast_concat]
  exact Text.strip_dropWhile t

/-- A header with `>=` or `<=` is an assignment, and one with another sign opens a block. -/
theorem Statement.ofLine_header (h : Comparison.Header) (op : Comparison) :
    ofLine (h.body op.symbol) =
      if op = .atLeast ∨ op = .atMost then .assign (.ofLine (h.body op.symbol))
      else .block .once (Text.strip (h.left ++ op.symbol ++ h.right)) := by
  have hgap := List.all_eq_true.mp h.blank_gap
  have hleft : Comparison.IsSide ("if ".toList ++ h.left) :=
    Comparison.IsSide.append (by decide) h.isSide_left
  have hright : Comparison.IsSide (h.right ++ h.gap ++ [':']) :=
    (h.isSide_right.append (Comparison.isSide_of_blanks hgap)).append (by decide)
  have hassign := Comparison.isAssignment_written hleft hright op
  rw [← Comparison.Header.body_eq] at hassign
  have hcondition : conditionAfter BlockKind.once.keyword (h.body op.symbol) =
      Text.strip (h.left ++ op.symbol ++ h.right) := by
    refine (conditionAfter_colon BlockKind.once.keyword _).trans ?_
    rw [Text.strip_append_blanks _ hgap]
  have hprint : printOpening.isPrefixOf (h.body op.symbol) = false := rfl
  have hkeyword : BlockKind.once.keyword.isPrefixOf (h.body op.symbol) = true := rfl
  rw [ofLine, hassign, hprint, hkeyword, hcondition]
  simp only [decide_eq_true_eq, Bool.false_eq_true, if_false, if_true]

/-! ## Running -/

namespace Run

/-- A block that may run once is run if its condition holds, whatever the cap on loops is. -/
theorem statement_once {cap : LoopCap} {lines : Lines} {budget : Nat} {i stop indent next : Int}
    {line condition : Text} (hopens : Statement.ofLine line = .block .once condition)
    (hstop : lines.blockStop i indent stop = .ok next) (s : State) :
    statement cap lines budget i stop line indent s =
      proceed s (fun b =>
          if b then (do Tree.nested budget fun left => body cap lines left (i + 1) next
                        return next : Run Int) s
          else .ok next s)
        (Condition.eval s.env budget condition) := by
  have hcap : ∀ body, block cap budget .once condition body =
      block (0 : Int) budget .once condition body := by
    intro body
    rw [block, block, runs, runs]
  rw [statement_of_block hopens hstop, hcap, block_eq, Tree.perform, bind_apply, bind_apply,
    holds_apply]
  cases Condition.eval s.env budget condition with
  | error f => rfl
  | ok b =>
    cases b with
    | false => rfl
    | true => exact (bind_apply _ _ s).symm

end Run

/-! ## What a sign asks for -/

/-- A condition with the sign between two sides puts the values of the sides to the test. -/
def Condition.Compares (sign : Text) (test : Value → Value → Bool) : Prop :=
  ∀ l r : Text, Comparison.IsSide l → Comparison.IsSide r →
    ∀ (env : Environment) (budget : Nat),
      eval env budget (l ++ sign ++ r) = Comparison.between test env budget l r

namespace Run

/-- A header with the sign runs its block exactly if the values of its sides pass the test, and
then goes on behind the block. -/
def Guards (sign : Text) (test : Value → Value → Bool) : Prop :=
  ∀ (h : Comparison.Header) (cap : LoopCap) (lines : Lines) (budget i stop : Nat) (indent : Int),
    i < stop → stop ≤ lines.size →
    ∃ next : Nat, lines.blockStop i indent stop = .ok next ∧ i < next ∧ next ≤ stop ∧
      ∀ s : State, statement cap lines budget i stop (Text.strip (h.line sign)) indent s =
        proceed s (fun b =>
            if b then (do Tree.nested budget fun left => body cap lines left (i + 1) next
                          return (next : Int) : Run Int) s
            else .ok next s)
          (Comparison.between test s.env budget h.left h.right)

/-- A header with the sign is an assignment, and the next line follows it. -/
def Assigns (sign : Text) : Prop :=
  ∀ (h : Comparison.Header) (cap : LoopCap) (lines : Lines) (budget : Nat) (i stop indent : Int)
    (s : State), statement cap lines budget i stop (Text.strip (h.line sign)) indent s =
      (do assign budget (.ofLine (h.body sign))
          return i + 1 : Run Int) s

theorem guards_symbol {op : Comparison} (hop : ¬ (op = .atLeast ∨ op = .atMost)) :
    Guards op.symbol op.holds := by
  intro h cap lines budget i stop indent hi hs
  obtain ⟨next, hstop, hlt, hle, -, -⟩ := Lines.exists_blockStop lines indent hi hs
  refine ⟨next, hstop, hlt, hle, fun s => ?_⟩
  have hline := Statement.ofLine_header h op
  rw [if_neg hop] at hline
  have hcondition : Condition.eval s.env budget (Text.strip (h.left ++ op.symbol ++ h.right)) =
      Comparison.between op.holds s.env budget h.left h.right := by
    rw [← Condition.eval_written h.isSide_left h.isSide_right, Condition.eval, Condition.eval,
      Text.strip_strip]
  rw [h.strip_line, statement_once hline hstop, hcondition]

theorem assigns_symbol {op : Comparison} (hop : op = .atLeast ∨ op = .atMost) :
    Assigns op.symbol := by
  intro h cap lines budget i stop indent s
  have hline := Statement.ofLine_header h op
  rw [if_pos hop] at hline
  rw [h.strip_line, statement, hline]

/-- A condition puts the values of the sides that its sign stands between to the test of the
sign: the four relations compare them as numbers, `==` asks whether they agree, and `!=` is its
opposite.  A header with the sign runs its block exactly if its sides pass the same test, unless
the sign is `>=` or `<=`: then the header is an assignment, and nothing is compared. -/
theorem comparison_headers :
    (Condition.Compares ">=".toList (fun v w => w.asNumber.atMost v.asNumber) ∧
      Condition.Compares "<=".toList (fun v w => v.asNumber.atMost w.asNumber) ∧
      Condition.Compares ">".toList (fun v w => w.asNumber.less v.asNumber) ∧
      Condition.Compares "<".toList (fun v w => v.asNumber.less w.asNumber) ∧
      Condition.Compares "==".toList (fun v w => v.agrees w) ∧
      Condition.Compares "!=".toList (fun v w => !v.agrees w)) ∧
    (∀ l r : Text, Comparison.IsSide l → Comparison.IsSide r →
      ∀ (env : Environment) (budget : Nat),
        Condition.eval env budget (l ++ "!=".toList ++ r) =
          (Condition.eval env budget (l ++ "==".toList ++ r)).map (!·)) ∧
    (Guards ">".toList (fun v w => w.asNumber.less v.asNumber) ∧
      Guards "<".toList (fun v w => v.asNumber.less w.asNumber) ∧
      Guards "==".toList (fun v w => v.agrees w) ∧
      Guards "!=".toList (fun v w => !v.agrees w)) ∧
    Assigns ">=".toList ∧ Assigns "<=".toList := by
  have hcompares : ∀ op : Comparison, Condition.Compares op.symbol op.holds :=
    fun op l r hl hr => Condition.eval_written hl hr op
  refine ⟨⟨hcompares .atLeast, hcompares .atMost, hcompares .greater, hcompares .less,
    hcompares .equal, hcompares .unequal⟩, ?_, ⟨?_, ?_, ?_, ?_⟩, ?_, ?_⟩
  · intro l r hl hr env budget
    refine (hcompares .unequal l r hl hr env budget).trans ?_
    refine Eq.trans ?_ (congrArg (Except.map (!·)) (hcompares .equal l r hl hr env budget)).symm
    rw [Comparison.between, Comparison.between]
    cases Expression.eval env budget l with
    | error f => rfl
    | ok v =>
      cases Expression.eval env budget r with
      | error f => rfl
      | ok w => rfl
  · exact @guards_symbol .greater (by decide)
  · exact @guards_symbol .less (by decide)
  · exact @guards_symbol .equal (by decide)
  · exact @guards_symbol .unequal (by decide)
  · exact @assigns_symbol .atLeast (Or.inl rfl)
  · exact @assigns_symbol .atMost (Or.inr rfl)

/-- A header, whichever its sign is, with a line in its block. -/
def guardedLines : Lines := #["if x".toList, "    print('yes')".toList]

/-- The state in which the name is bound to a number above three. -/
def fiveState : State := { env := ⟨[("x".toList, .int 5)]⟩ }

/-- The same state after the block has printed. -/
def yesState : State := { fiveState with output := #["yes".toList] }

/-- A header that asks for the name and three. -/
def threeHeader : Comparison.Header where
  left := "x ".toList
  right := " 3".toList
  gap := [' ']
  tail := "  ".toList

/-- The block of the header prints its text. -/
theorem body_guardedLines :
    body (1000 : Int) guardedLines (nestingLimit - blockCost) 1 2 fiveState =
      .ok () yesState := by
  have hend : range (1000 : Int) guardedLines (nestingLimit - blockCost) 2 2 4 yesState =
      .ok 2 yesState := by
    rw [range_eq]
    rfl
  have hprint : range (1000 : Int) guardedLines (nestingLimit - blockCost) 1 2 4 fiveState =
      range (1000 : Int) guardedLines (nestingLimit - blockCost) 2 2 4 yesState := by
    rw [range_eq]
    rfl
  have henter : body (1000 : Int) guardedLines (nestingLimit - blockCost) 1 2 =
      discard (range (1000 : Int) guardedLines (nestingLimit - blockCost) 1 2 4) := rfl
  apply ok_of_ending
  rw [henter, ending_discard, ending_of_ok (hprint.trans hend)]

theorem guardedLines_compared :
    threeHeader.line ">".toList = "if x > 3 :  ".toList ∧
    Condition.eval fiveState.env nestingLimit "x >= 3".toList = .ok true ∧
    Condition.eval fiveState.env nestingLimit "x == 3".toList = .ok false ∧
    statement (1000 : Int) guardedLines nestingLimit 0 2
      (Text.strip (threeHeader.line ">".toList)) 0 fiveState = .ok 2 yesState ∧
    statement (1000 : Int) guardedLines nestingLimit 0 2
      (Text.strip (threeHeader.line "<".toList)) 0 fiveState = .ok 2 fiveState ∧
    statement (1000 : Int) guardedLines nestingLimit 0 2
      (Text.strip (threeHeader.line ">=".toList)) 0 fiveState =
        .ok 1 { fiveState with env := fiveState.env.set "if x >".toList (.text "3 :".toList) } := by
  obtain ⟨⟨hatLeast, -, -, -, hequal, -⟩, -, ⟨hgreater, hless, -, -⟩, hassigns, -⟩ :=
    comparison_headers
  have hl : Comparison.IsSide "x ".toList := threeHeader.isSide_left
  have hr : Comparison.IsSide " 3".toList := threeHeader.isSide_right
  have hsides : ∀ test : Value → Value → Bool,
      Comparison.between test fiveState.env nestingLimit threeHeader.left threeHeader.right =
        .ok (test (.int 5) (.int 3)) := fun _ => rfl
  refine ⟨rfl, ?_, ?_, ?_, ?_, hassigns threeHeader (1000 : Int) guardedLines nestingLimit 0 2 0
    fiveState⟩
  · refine (hatLeast _ _ hl hr fiveState.env nestingLimit).trans ((hsides _).trans ?_)
    exact congrArg Except.ok (by decide +kernel)
  · refine (hequal _ _ hl hr fiveState.env nestingLimit).trans ((hsides _).trans ?_)
    exact congrArg Except.ok (by decide +kernel)
  · obtain ⟨next, hstop, -, -, hruns⟩ :=
      hgreater threeHeader (1000 : Int) guardedLines nestingLimit 0 2 0 (by decide) (by decide)
    obtain rfl : 2 = next := Int.ofNat.inj (Except.ok.inj hstop)
    have htrue : (Value.int 3).asNumber.less (Value.int 5).asNumber = true := by decide +kernel
    refine (hruns fiveState).trans ?_
    rw [hsides, htrue]
    have hnested : Tree.nested nestingLimit
        (fun left => body (1000 : Int) guardedLines left 1 2) fiveState =
          .ok () yesState := body_guardedLines
    refine (bind_apply _ _ fiveState).trans ?_
    rw [show ((0 : Nat) : Int) + 1 = 1 from rfl, show ((2 : Nat) : Int) = 2 from rfl, hnested]
    rfl
  · obtain ⟨next, hstop, -, -, hruns⟩ :=
      hless threeHeader (1000 : Int) guardedLines nestingLimit 0 2 0 (by decide) (by decide)
    obtain rfl : 2 = next := Int.ofNat.inj (Except.ok.inj hstop)
    have hfalse : (Value.int 5).asNumber.less (Value.int 3).asNumber = false := by decide +kernel
    refine (hruns fiveState).trans ?_
    rw [hsides, hfalse]
    rfl

end Run

end LineScript
