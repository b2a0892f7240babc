import LineScript.Proofs.Grouping
import LineScript.Proofs.Piece
import LineScript.Proofs.Reading

set_option autoImplicit false

/-!
# The value of a chain

An expression is evaluated by cutting its text at an operator, again and again, and
never by reading it as a whole.  On the text of a chain this comes to the same as
computing the formula that groups the chain, from its leaves up.

Proved: the text of a chain has the value of its formula, if the budget is larger than
the formula is high (`Formula.Grouped.eval_text`), and else it has none
(`Formula.Grouped.eval_text_error`); and where a formula adds, subtracts and multiplies integers
that do not pass the safe limit, its value is exact (`Formula.Exact.value_eq`).
-/

namespace LineScript

/-! ## Characters -/

theorem Text.isAlpha_iff_toNat {c : Char} :
    c.isAlpha = true ↔ 65 ≤ c.toNat ∧ c.toNat ≤ 90 ∨ 97 ≤ c.toNat ∧ c.toNat ≤ 122 := by
  change (decide ('A'.val ≤ c.val ∧ c.val ≤ 'Z'.val) ||
    (decide ('a'.val ≤ c.val) && decide (c.val ≤ 'z'.val))) = true ↔ _
  simp only [Bool.or_eq_true, Bool.and_eq_true, decide_eq_true_eq, UInt32.le_iff_toNat_le]
  rfl

/-- Letters, digits and underscores stand between the code points of `0` and `z`. -/
theorem Text.bounds_of_nameCharacter {c : Char} (h : (c.isAlphanum || c = '_') = true) :
    48 ≤ c.toNat ∧ c.toNat ≤ 122 := by
  rw [Char.isAlphanum, Bool.or_eq_true, Bool.or_eq_true, isAlpha_iff_toNat,
    decide_eq_true_eq] at h
  rcases h with (h | h) | rfl
  · omega
  · have := bounds_of_isDigit h
    omega
  · decide

/-- No digit starts a name. -/
theorem Text.isDigit_eq_false {c : Char} (h : (c.isAlpha || c = '_') = true) :
    c.isDigit = false := by
  rw [Bool.eq_false_iff]
  intro hdigit
  rw [Bool.or_eq_true, isAlpha_iff_toNat, decide_eq_true_eq] at h
  rcases h with h | rfl
  · have := bounds_of_isDigit hdigit
    omega
  · exact absurd hdigit (by decide)

namespace Operator

theorem symbol_injective {a b : Operator} (h : a.symbol = b.symbol) : a = b := by
  cases a <;> cases b <;> simp_all [symbol]

theorem symbol_bounds (op : Operator) : 42 ≤ op.symbol.toNat ∧ op.symbol.toNat ≤ 47 := by
  cases op <;> decide

theorem symbol_ne_point (op : Operator) : op.symbol ≠ '.' := by
  cases op <;> decide

end Operator

/-- A name starts with a letter or an underscore, and a literal with a digit. -/
theorem Atom.exists_text_eq_cons (a : Atom) :
    ∃ c cs, a.text = c :: cs ∧ (c.isAlphanum || c = '_') = true := by
  cases a with
  | literal l wellFormed unsigned =>
    obtain ⟨c, cs, hcs⟩ := List.exists_cons_of_ne_nil wellFormed.whole.ne_nil
    have hc : c.isDigit = true :=
      List.all_eq_true.mp wellFormed.whole.all_digits c (hcs ▸ List.mem_cons_self)
    refine ⟨c, cs ++ Decimal.Literal.fractionText l.fraction, ?_, ?_⟩
    · rw [text, Decimal.Literal.text, unsigned, if_neg Bool.false_ne_true,
        Decimal.Literal.unsignedText, hcs, List.cons_append]
    · rw [Char.isAlphanum, hc, Bool.or_true, Bool.true_or]
  | name x isName =>
    cases x with
    | nil => exact absurd isName (by simp [Expression.isName])
    | cons c cs =>
      simp only [Expression.isName, Bool.and_eq_true, Bool.or_eq_true] at isName
      refine ⟨c, cs, rfl, ?_⟩
      rw [Char.isAlphanum, Bool.or_eq_true, Bool.or_eq_true]
      exact isName.1.imp_left Or.inl

/-- An atom holds points and what may stand in a name. -/
theorem Atom.mem_text {a : Atom} {c : Char} (h : c ∈ a.text) :
    c = '.' ∨ 48 ≤ c.toNat ∧ c.toNat ≤ 122 := by
  cases a with
  | literal l wellFormed unsigned =>
    rcases Decimal.Literal.mem_text wellFormed unsigned h with hc | hc
    · refine Or.inr (Text.bounds_of_nameCharacter ?_)
      rw [Char.isAlphanum, hc, Bool.or_true, Bool.true_or]
    · exact Or.inl hc
  | name x isName =>
    refine Or.inr (Text.bounds_of_nameCharacter ?_)
    obtain ⟨d, ds, hx, hd⟩ := (name x isName).exists_text_eq_cons
    rw [hx, List.mem_cons] at h
    rcases h with rfl | h
    · exact hd
    · rw [text] at hx
      rw [hx, Expression.isName, Bool.and_eq_true, List.all_eq_true] at isName
      exact isName.2 c h

theorem Atom.isBlank_of_mem {a : Atom} {c : Char} (h : c ∈ a.text) : Text.isBlank c = false := by
  rcases a.mem_text h with rfl | hc
  · rfl
  · exact Text.isBlank_eq_false (by omega)

theorem Atom.strip_text (a : Atom) : Text.strip a.text = a.text :=
  Text.strip_eq_self (fun _ hc => a.isBlank_of_mem (List.mem_of_mem_head? hc))
    fun _ hc => a.isBlank_of_mem (List.mem_of_mem_getLast? hc)

theorem Spaced.strip_text (w : Spaced) : Text.strip w.text = w.atom.text := by
  rw [text, Text.strip_append_blanks _ (List.all_eq_true.mp w.blank_tail),
    Text.strip_blanks_append (List.all_eq_true.mp w.blank_lead), w.atom.strip_text]

/-- No operator stands in an atom. -/
theorem Atom.symbol_not_mem (a : Atom) (op : Operator) : op.symbol ∉ a.text := by
  intro h
  rcases a.mem_text h with hpoint | hc
  · exact op.symbol_ne_point hpoint
  · have := op.symbol_bounds
    omega

/-- No operator stands in the blanks around an atom either. -/
theorem Spaced.symbol_not_mem (w : Spaced) (op : Operator) : op.symbol ∉ w.text := by
  have hbounds := op.symbol_bounds
  have hblank : Text.isBlank op.symbol = false := Text.isBlank_eq_false (by omega)
  intro h
  rw [text, List.mem_append, List.mem_append] at h
  rcases h with (h | h) | h
  · exact absurd (List.all_eq_true.mp w.blank_lead _ h) (by simp [hblank])
  · exact w.atom.symbol_not_mem op h
  · exact absurd (List.all_eq_true.mp w.blank_tail _ h) (by simp [hblank])

namespace Chain

/-- What looks like an operator in a chain is one of its operators. -/
theorem mem_operators {c : Chain} {op : Operator} (h : op.symbol ∈ c.text) :
    op ∈ c.operators := by
  induction c with
  | last w => exact absurd h (w.symbol_not_mem op)
  | link w o rest ih =>
    rw [text, List.mem_append, List.mem_cons] at h
    rcases h with h | h | h
    · exact absurd h (w.symbol_not_mem op)
    · rw [Operator.symbol_injective h]
      exact List.mem_cons_self
    · exact List.mem_cons_of_mem _ (ih h)

/-- Behind its leading blanks a chain starts with an atom. -/
theorem exists_dropWhile_text (c : Chain) :
    ∃ d ds, c.text.dropWhile Text.isBlank = d :: ds ∧ (d.isAlphanum || d = '_') = true := by
  have hspaced : ∀ (w : Spaced) (rest : Text), ∃ d ds,
      (w.text ++ rest).dropWhile Text.isBlank = d :: ds ∧ (d.isAlphanum || d = '_') = true := by
    intro w rest
    obtain ⟨d, ds, hatom, hd⟩ := w.atom.exists_text_eq_cons
    have hblank : Text.isBlank d = false :=
      w.atom.isBlank_of_mem (hatom ▸ List.mem_cons_self)
    refine ⟨d, ds ++ w.tail ++ rest, ?_, hd⟩
    rw [Spaced.text, List.append_assoc, List.append_assoc,
      List.dropWhile_append_of_pos (List.all_eq_true.mp w.blank_lead), hatom, List.cons_append,
      List.dropWhile_cons_of_neg (by simp [hblank]), List.append_assoc]
  cases c with
  | last w =>
    obtain ⟨d, ds, hw, hd⟩ := hspaced w []
    rw [List.append_nil] at hw
    exact ⟨d, ds, hw, hd⟩
  | link w op rest => exact hspaced w (op.symbol :: rest.text)

end Chain

/-! ## Shapes -/

namespace Expression

theorem unquote?_eq_none {c : Char} {cs : Text} (h : (c.isAlphanum || c = '_') = true) :
    unquote? (c :: cs) = none := by
  have hbounds := Text.bounds_of_nameCharacter h
  have hquotes : c ≠ Char.ofNat 39 ∧ c ≠ Char.ofNat 34 := by
    constructor
    · rintro rfl
      exact absurd hbounds (by decide)
    · rintro rfl
      exact absurd hbounds (by decide)
  rw [unquote?, if_neg]
  simp [quotes, hquotes.1, hquotes.2]

/-- A name is no literal. -/
theorem ofText?_of_isName {x : Text} (h : isName x = true) :
    Decimal.Literal.ofText? x = none := by
  rw [Option.eq_none_iff_forall_ne_some]
  intro l hl
  obtain ⟨wellFormed, rfl⟩ := Decimal.Literal.ofText?_eq_some_iff.mp hl
  unfold isName at h
  split at h
  · exact absurd h (by simp)
  · rename_i c cs htext
    rw [Bool.and_eq_true] at h
    cases hsign : l.negative with
    | false =>
      rw [Decimal.Literal.text, hsign, if_neg Bool.false_ne_true] at htext
      have hdigit := Decimal.Literal.isDigit_of_head?_unsignedText wellFormed
        (congrArg List.head? htext)
      exact absurd hdigit (by simp [Text.isDigit_eq_false h.1])
    | true =>
      rw [Decimal.Literal.text, hsign, if_pos rfl] at htext
      rw [← (List.cons.inj htext).1] at h
      exact absurd h.1 (by decide)

theorem shape_atom (a : Atom) :
    shape a.text = match a with
      | .literal l _ _ => .literal l.text
      | .name x _ => .name x := by
  obtain ⟨c, cs, hcs, hc⟩ := a.exists_text_eq_cons
  have hquote : unquote? a.text = none := by
    rw [hcs]
    exact unquote?_eq_none hc
  rw [shape, hquote]
  cases a with
  | literal l wellFormed unsigned =>
    have hread : Decimal.Literal.ofText? l.text = some l :=
      Decimal.Literal.ofText?_eq_some_iff.mpr ⟨wellFormed, rfl⟩
    simp only [Atom.text, hread]
  | name x isName =>
    have hread : Decimal.Literal.ofText? x = none := ofText?_of_isName isName
    simp only [Atom.text, hread, isName, if_true]

/-- A text that starts like an atom and can be split has two operands. -/
theorem shape_of_split? {c : Char} {cs left right : Text} {op : Operator}
    (hc : (c.isAlphanum || c = '_') = true) (h : split? (c :: cs) = some (op, left, right)) :
    shape (c :: cs) = .binary op left right := by
  have hsymbol : op.symbol ∈ c :: cs := by
    rw [split?_eq_some h]
    simp
  have hname : isName (c :: cs) = false := by
    rw [Bool.eq_false_iff]
    intro hname
    exact (Atom.name (c :: cs) hname).symbol_not_mem op hsymbol
  have hread : Decimal.Literal.ofText? (c :: cs) = none := by
    rw [Option.eq_none_iff_forall_ne_some]
    intro l hl
    obtain ⟨wellFormed, htext⟩ := Decimal.Literal.ofText?_eq_some_iff.mp hl
    cases hsign : l.negative with
    | false =>
      rw [htext] at hsymbol
      exact (Atom.literal l wellFormed hsign).symbol_not_mem op hsymbol
    | true =>
      rw [Decimal.Literal.text, hsign, if_pos rfl] at htext
      rw [(List.cons.inj htext).1] at hc
      exact absurd hc (by decide)
  rw [shape, unquote?_eq_none hc, hread, hname]
  simp only [h, Bool.false_eq_true, if_false]

/-- A text that holds no looser operator is split at the first place of an operator. -/
theorem split?_append_cons {l r : Text} {op : Operator} (hl : op.symbol ∉ l)
    (hloosest : ∀ o : Operator, o.symbol ∈ l ++ op.symbol :: r → op.tightness ≤ o.tightness)
    (hhead : (l ++ op.symbol :: r).head? ≠ some '-') :
    split? (l ++ op.symbol :: r) = some (op, l, r) := by
  have hnone : ∀ o : Operator, o.tightness < op.tightness →
      o.split? (l ++ op.symbol :: r) = none := by
    intro o ho
    have hmem : o.symbol ∉ l ++ op.symbol :: r :=
      fun h => absurd (hloosest o h) (Nat.not_le.mpr ho)
    rw [Operator.split?, Text.cut?_eq_none hmem, ite_self]
  have hsome : op.split? (l ++ op.symbol :: r) = some (l, r) := by
    rw [Operator.split?, if_neg fun h => hhead h.2, Text.cut?_append_cons hl]
  cases op with
  | add => simp [split?, Operator.all, hsome]
  | sub => simp [split?, Operator.all, hsome, hnone .add (by decide)]
  | mul => simp [split?, Operator.all, hsome, hnone .add (by decide), hnone .sub (by decide)]
  | div =>
    simp [split?, Operator.all, hsome, hnone .add (by decide), hnone .sub (by decide),
      hnone .mul (by decide)]

/-- Blanks around a text do not change its value. -/
theorem eval_congr_strip (env : Environment) (budget : Nat) {t t' : Text}
    (h : Text.strip t = Text.strip t') : eval env budget t = eval env budget t' := by
  cases budget with
  | zero => rfl
  | succ budget => rw [eval, eval, h]

end Expression

/-! ## Evaluation -/

/-- The number that a literal denotes, or what a name reads as. -/
def Atom.value (env : Environment) : Atom → Value
  | .literal l _ _ => .num (.ofLiteral l.text.length l)
  | .name x _ => env.read x

namespace Formula

/-- The value of a formula.  What is no number counts as zero, and an integer past the
safe limit becomes a double. -/
def value (env : Environment) : Formula → Except Fault Value
  | .leaf w => .ok (w.atom.value env)
  | .node op left right => do
    let x ← left.value env
    let y ← right.value env
    let z ← op.apply x.asOperand y.asOperand
    return .num z.normalize

/-- How deep the operators of a formula are nested. -/
def height : Formula → Nat
  | .leaf _ => 0
  | .node _ left right => max left.height right.height + 1

theorem eval_leaf (env : Environment) (budget : Nat) (w : Spaced) :
    Expression.eval env (budget + 1) (leaf w).chain.text = (leaf w).value env := by
  rw [Expression.eval, chain, Chain.text, w.strip_text, Expression.shape_atom]
  cases h : w.atom with
  | literal l wellFormed unsigned =>
    have hread := Number.readLiteral_of_ofText?
      (Decimal.Literal.ofText?_eq_some_iff.mpr ⟨wellFormed, rfl⟩)
    rw [value, h, Atom.value]
    simp only [hread]
    rfl
  | name x isName => rw [value, h, Atom.value]

/-- The text of a grouped formula is evaluated at its root first. -/
theorem Grouped.eval_node {op : Operator} {left right : Formula}
    (h : (node op left right).Grouped) (env : Environment) (budget : Nat) :
    Expression.eval env (budget + 1) (node op left right).chain.text = (do
      let x ← Expression.eval env budget left.chain.text
      let y ← Expression.eval env budget right.chain.text
      let z ← op.apply x.asOperand y.asOperand
      return .num z.normalize) := by
  have hbounds := op.symbol_bounds
  have hblank : Text.isBlank op.symbol = false := Text.isBlank_eq_false (by omega)
  have htext : (node op left right).chain.text =
      left.chain.text ++ op.symbol :: right.chain.text := Chain.text_join op _ _
  have hstrip := Text.strip_append_cons left.chain.text right.chain.text hblank
  -- the stripped text starts with an atom and holds only operators of the formula
  obtain ⟨d, ds, hhead, hd⟩ := left.chain.exists_dropWhile_text
  have hloosest : ∀ o : Operator, o.symbol ∈ left.chain.text.dropWhile Text.isBlank ++
      op.symbol :: Text.stripRight right.chain.text → op.tightness ≤ o.tightness := by
    intro o ho
    rw [← hstrip, ← htext] at ho
    have hmem := Chain.mem_operators ((Text.strip_infix _).mem ho)
    rw [operators_chain] at hmem
    exact h.root_le o hmem
  have hleft : op.symbol ∉ left.chain.text.dropWhile Text.isBlank := by
    intro hmem
    have hmem := Chain.mem_operators ((List.dropWhile_sublist _).mem hmem)
    rw [operators_chain] at hmem
    exact Nat.lt_irrefl _ (h.1 op hmem)
  have hminus : (left.chain.text.dropWhile Text.isBlank ++
      op.symbol :: Text.stripRight right.chain.text).head? ≠ some '-' := by
    rw [hhead, List.cons_append, List.head?_cons]
    intro hd'
    rw [Option.some.inj hd'] at hd
    exact absurd hd (by decide)
  have hsplit := Expression.split?_append_cons hleft hloosest hminus
  have hshape : Expression.shape (Text.strip (node op left right).chain.text) =
      .binary op (left.chain.text.dropWhile Text.isBlank)
        (Text.stripRight right.chain.text) := by
    rw [htext, hstrip, hhead, List.cons_append]
    rw [hhead, List.cons_append] at hsplit
    exact Expression.shape_of_split? hd hsplit
  rw [Expression.eval, hshape]
  simp only [Expression.eval_congr_strip env budget (Text.strip_dropWhile left.chain.text),
    Expression.eval_congr_strip env budget (Text.strip_stripRight right.chain.text)]

/-- The text of a grouped formula has the value of the formula, if the budget is larger
than the formula is high. -/
theorem Grouped.eval_text {f : Formula} (h : f.Grouped) (env : Environment) {budget : Nat}
    (hbudget : f.height < budget) :
    Expression.eval env budget f.chain.text = f.value env := by
  induction f generalizing budget with
  | leaf w =>
    obtain ⟨b, rfl⟩ : ∃ b, budget = b + 1 := ⟨budget - 1, by omega⟩
    exact eval_leaf env b w
  | node op left right ihleft ihright =>
    rw [height] at hbudget
    obtain ⟨b, rfl⟩ : ∃ b, budget = b + 1 := ⟨budget - 1, by omega⟩
    rw [h.eval_node env b, ihleft h.2.2.1 (by omega), ihright h.2.2.2 (by omega), value]

/-- With a budget that is not larger the text has no value. -/
theorem Grouped.eval_text_error {f : Formula} (h : f.Grouped) (env : Environment) {budget : Nat}
    (hbudget : budget ≤ f.height) :
    ∃ fault, Expression.eval env budget f.chain.text = .error fault := by
  induction f generalizing budget with
  | leaf w =>
    obtain rfl : budget = 0 := Nat.le_zero.mp hbudget
    exact ⟨.nestingTooDeep, rfl⟩
  | node op left right ihleft ihright =>
    cases budget with
    | zero => exact ⟨.nestingTooDeep, rfl⟩
    | succ b =>
      rw [height] at hbudget
      rw [h.eval_node env b]
      cases hx : Expression.eval env b left.chain.text with
      | error fault => exact ⟨fault, rfl⟩
      | ok x =>
        -- the left operand has a value, so the right one is as deep as the budget
        have hleft : left.height < b := by
          refine Nat.lt_of_not_le fun hle => ?_
          obtain ⟨fault, hfault⟩ := ihleft h.2.2.1 hle
          exact absurd (hx.symm.trans hfault) (by simp)
        obtain ⟨fault, hfault⟩ := ihright h.2.2.2 (show b ≤ right.height by omega)
        refine ⟨fault, ?_⟩
        rw [hfault]
        rfl

/-! ## Exact values -/

/-- The formula adds, subtracts and multiplies integers, none of its results passes the
safe limit, and the last one is `n`. -/
inductive Exact (env : Environment) : Formula → Int → Prop
  | leaf {w : Spaced} {n : Int} (hvalue : w.atom.value env = .int n) : Exact env (.leaf w) n
  | add {left right : Formula} {m n : Int} (hleft : Exact env left m)
      (hright : Exact env right n) (hsafe : (m + n).natAbs ≤ Number.safeLimit) :
      Exact env (.node .add left right) (m + n)
  | sub {left right : Formula} {m n : Int} (hleft : Exact env left m)
      (hright : Exact env right n) (hsafe : (m - n).natAbs ≤ Number.safeLimit) :
      Exact env (.node .sub left right) (m - n)
  | mul {left right : Formula} {m n : Int} (hleft : Exact env left m)
      (hright : Exact env right n) (hsafe : (m * n).natAbs ≤ Number.safeLimit) :
      Exact env (.node .mul left right) (m * n)

/-- An operator that is exact on integers, up to the safe limit, gives its integer. -/
theorem value_node_of_int {env : Environment} {op : Operator} {left right : Formula}
    {m n z : Int} (hleft : left.value env = .ok (.int m)) (hright : right.value env = .ok (.int n))
    (happly : op.apply (.int m) (.int n) = .ok (.int z)) (hsafe : z.natAbs ≤ Number.safeLimit) :
    (node op left right).value env = .ok (.int z) := by
  have hnormal : (Number.int z).normalize = .int z := by
    rw [Number.normalize, if_neg (Nat.not_lt.mpr hsafe)]
  rw [value, hleft, hright]
  simp only [bind, Except.bind, Value.int, Value.asOperand, Value.number?, Option.getD_some,
    happly, hnormal]
  rfl

/-- The value of an exact formula is exact. -/
theorem Exact.value_eq {env : Environment} {f : Formula} {n : Int} (h : Exact env f n) :
    f.value env = .ok (.int n) := by
  induction h with
  | leaf hvalue => rw [value, hvalue]
  | add _ _ hsafe ihleft ihright => exact value_node_of_int ihleft ihright rfl hsafe
  | sub _ _ hsafe ihleft ihright => exact value_node_of_int ihleft ihright rfl hsafe
  | mul _ _ hsafe ihleft ihright => exact value_node_of_int ihleft ihright rfl hsafe

end Formula

/-- A chain is grouped in one way, and its text has the value of that formula whenever
the formula is less high than the budget; otherwise it has none.  A quotient by zero is
zero, and where the formula adds, subtracts and multiplies integers without passing the
safe limit, the value is the exact integer. -/
theorem Expression.eval_chain (c : Chain) :
    ∃ f : Formula, (f.Grouped ∧ f.chain = c ∧ ∀ g : Formula, g.Grouped → g.chain = c → g = f) ∧
      (∀ (env : Environment) (budget : Nat),
        (f.height < budget → eval env budget c.text = f.value env) ∧
        (budget ≤ f.height → ∃ fault, eval env budget c.text = .error fault) ∧
        ∀ n : Int, f.height < budget → f.Exact env n → eval env budget c.text = .ok (.int n)) ∧
      ∀ x y : Number, y.isZero = true → Operator.div.apply x y = .ok (.int 0) := by
  have hgrouped := Formula.grouped_formula c
  have hchain := Formula.chain_formula c
  refine ⟨c.formula, ⟨hgrouped, hchain, ?_⟩, ?_, ?_⟩
  · intro g hg hgc
    rw [← hgc, Formula.formula_chain hg]
  · intro env budget
    have hvalue : c.formula.height < budget → eval env budget c.text = c.formula.value env := by
      intro hbudget
      rw [← hgrouped.eval_text env hbudget, hchain]
    refine ⟨hvalue, ?_, ?_⟩
    · intro hbudget
      have herror := hgrouped.eval_text_error env hbudget
      rwa [hchain] at herror
    · intro n hbudget hexact
      rw [hvalue hbudget, hexact.value_eq]
  · intro x y hy
    exact if_pos hy

/-- A whole number with blanks around it. -/
def spacedWhole (lead digits tail : Text) (hlead : lead.all Text.isBlank = true)
    (hdigits : digits.IsDigits) (htail : tail.all Text.isBlank = true) : Spaced :=
  ⟨lead, .literal ⟨false, digits, none⟩ ⟨hdigits, fun _ hd => absurd hd (by simp)⟩ rfl, tail,
    hlead, htail⟩

/-- A product on the right of two differences, with a tab among the blanks. -/
def differences : Formula :=
  .node .sub (.leaf (spacedWhole [] "10".toList [' '] rfl (by decide) rfl))
    (.node .sub (.leaf (spacedWhole [' '] "3".toList ['\t'] rfl (by decide) rfl))
      (.node .mul (.leaf (spacedWhole [] "2".toList [] rfl (by decide) rfl))
        (.leaf ⟨[], .name "x".toList rfl, [' '], rfl, rfl⟩)))

theorem Expression.differences_group_right :
    differences.Grouped ∧ differences.chain.text = "10 - 3\t-2*x ".toList ∧
    differences.height < nestingLimit ∧
    differences.Exact ⟨[("x".toList, .int 4)]⟩ 15 ∧
    eval ⟨[("x".toList, .int 4)]⟩ nestingLimit "10 - 3\t-2*x ".toList = .ok (.int 15) := by
  have hgrouped : differences.Grouped := by decide
  have hheight : differences.height < nestingLimit := by decide
  have hexact : differences.Exact ⟨[("x".toList, .int 4)]⟩ (10 - (3 - 2 * 4)) :=
    .sub (.leaf rfl) (.sub (.leaf rfl) (.mul (.leaf rfl) (.leaf rfl) (by decide)) (by decide))
      (by decide)
  obtain ⟨f, ⟨-, -, hunique⟩, heval, -⟩ := eval_chain differences.chain
  obtain rfl := hunique differences hgrouped rfl
  exact ⟨hgrouped, rfl, hheight, hexact, (heval _ nestingLimit).2.2 _ hheight hexact⟩

end LineScript
