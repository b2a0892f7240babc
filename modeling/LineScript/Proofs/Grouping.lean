import LineScript.Expression
import LineScript.Proofs.Literal

set_option autoImplicit false

/-!
# How a chain of operands is grouped

A chain is atoms with operators between them; the atoms are names and literals without
a sign, and blanks may stand around each of them.  A formula says which operands an
operator takes.  In a grouped formula an operator takes tighter ones to its left and no
looser ones to its right: `+` binds loosest, then `-`, `*` and `/`, and each of them
groups to the right.

Proved: every chain is that of one grouped formula, and of one only
(`Formula.grouped_formula`, `Formula.chain_formula`, `Formula.formula_chain`).
-/

namespace LineScript

/-- How tightly an operator binds. -/
def Operator.tightness : Operator → Nat
  | .add => 0
  | .sub => 1
  | .mul => 2
  | .div => 3

/-! ## Chains -/

/-- A name, or a literal without a sign. -/
inductive Atom where
  | literal (l : Decimal.Literal) (wellFormed : l.WellFormed) (unsigned : l.negative = false)
  | name (x : Text) (isName : Expression.isName x = true)

/-- How an atom is written. -/
def Atom.text : Atom → Text
  | .literal l _ _ => l.text
  | .name x _ => x

/-- An atom with blanks around it. -/
structure Spaced where
  lead : Text
  atom : Atom
  tail : Text
  blank_lead : lead.all Text.isBlank = true
  blank_tail : tail.all Text.isBlank = true

/-- How an atom with blanks around it is written. -/
def Spaced.text (w : Spaced) : Text := w.lead ++ w.atom.text ++ w.tail

/-- Atoms with operators between them. -/
inductive Chain where
  | last (w : Spaced)
  | link (w : Spaced) (op : Operator) (rest : Chain)

namespace Chain

/-- How a chain is written. -/
def text : Chain → Text
  | .last w => w.text
  | .link w op rest => w.text ++ op.symbol :: rest.text

/-- The operators of a chain in their order. -/
def operators : Chain → List Operator
  | .last _ => []
  | .link _ op rest => op :: rest.operators

/-- Two chains with an operator between them. -/
def join : Chain → Operator → Chain → Chain
  | .last w, op, d => .link w op d
  | .link w o rest, op, d => .link w o (rest.join op d)

theorem text_join (op : Operator) (c d : Chain) :
    (c.join op d).text = c.text ++ op.symbol :: d.text := by
  induction c with
  | last w => rfl
  | link w o rest ih => rw [join, text, text, ih, List.append_assoc, List.cons_append]

theorem operators_join (op : Operator) (c d : Chain) :
    (c.join op d).operators = c.operators ++ op :: d.operators := by
  induction c with
  | last w => rfl
  | link w o rest ih => rw [join, operators, operators, ih, List.cons_append]

end Chain

/-! ## Formulas -/

/-- Which operands the operators take. -/
inductive Formula where
  | leaf (w : Spaced)
  | node (op : Operator) (left right : Formula)

namespace Formula

/-- The operators of a formula in their order. -/
def operators : Formula → List Operator
  | .leaf _ => []
  | .node op left right => left.operators ++ op :: right.operators

/-- The chain that a formula groups. -/
def chain : Formula → Chain
  | .leaf w => .last w
  | .node op left right => left.chain.join op right.chain

/-- Every operator has tighter ones to its left, and none that is looser to its right. -/
def Grouped : Formula → Prop
  | .leaf _ => True
  | .node op left right =>
    (∀ o ∈ left.operators, op.tightness < o.tightness) ∧
    (∀ o ∈ right.operators, op.tightness ≤ o.tightness) ∧ left.Grouped ∧ right.Grouped

instance decidableGrouped : DecidablePred Grouped
  | .leaf _ => isTrue trivial
  | .node _ left right =>
    have := decidableGrouped left
    have := decidableGrouped right
    inferInstanceAs (Decidable (_ ∧ _ ∧ _ ∧ _))

theorem operators_chain (f : Formula) : f.chain.operators = f.operators := by
  induction f with
  | leaf w => rfl
  | node op left right ihleft ihright =>
    rw [chain, Chain.operators_join, ihleft, ihright, operators]

/-- The operator at the root of a grouped formula is one of its loosest. -/
theorem Grouped.root_le {op : Operator} {left right : Formula} (h : (node op left right).Grouped) :
    ∀ o ∈ (node op left right).operators, op.tightness ≤ o.tightness := by
  intro o ho
  rw [operators, List.mem_append, List.mem_cons] at ho
  rcases ho with ho | rfl | ho
  · exact Nat.le_of_lt (h.1 o ho)
  · exact Nat.le_refl _
  · exact h.2.1 o ho

/-! ## From chains to formulas -/

/-- Put an atom and an operator in front of a formula.  The operator takes as much of the
formula as binds no looser. -/
def graft (w : Spaced) (op : Operator) : Formula → Formula
  | .leaf v => .node op (.leaf w) (.leaf v)
  | .node o left right =>
    if op.tightness ≤ o.tightness then .node op (.leaf w) (.node o left right)
    else .node o (left.graft w op) right

variable (w : Spaced) (op : Operator)

theorem operators_graft (f : Formula) : (f.graft w op).operators = op :: f.operators := by
  induction f with
  | leaf v => rfl
  | node o left right ihleft _ =>
    rw [graft]
    split
    · rfl
    · rw [operators, ihleft, operators, List.cons_append]

theorem chain_graft (f : Formula) : (f.graft w op).chain = .link w op f.chain := by
  induction f with
  | leaf v => rfl
  | node o left right ihleft _ =>
    rw [graft]
    split
    · rfl
    · rw [chain, ihleft, chain, Chain.join]

theorem Grouped.graft {f : Formula} (h : f.Grouped) : (f.graft w op).Grouped := by
  induction f with
  | leaf v =>
    refine ⟨?_, ?_, trivial, trivial⟩
    · exact fun o ho => absurd ho (by simp [operators])
    · exact fun o ho => absurd ho (by simp [operators])
  | node o left right ihleft _ =>
    rw [Formula.graft]
    split
    · rename_i hle
      refine ⟨?_, ?_, trivial, h⟩
      · exact fun o' ho' => absurd ho' (by simp [operators])
      · exact fun o' ho' => Nat.le_trans hle (h.root_le o' ho')
    · rename_i hgt
      refine ⟨?_, h.2.1, ihleft h.2.2.1, h.2.2.2⟩
      intro o' ho'
      rw [operators_graft, List.mem_cons] at ho'
      rcases ho' with rfl | ho'
      · exact Nat.not_le.mp hgt
      · exact h.1 o' ho'

/-- An operator that binds no tighter than a formula takes all of it. -/
theorem graft_of_le {f : Formula} (h : ∀ o ∈ f.operators, op.tightness ≤ o.tightness) :
    f.graft w op = .node op (.leaf w) f := by
  cases f with
  | leaf v => rfl
  | node o left right =>
    have ho : o ∈ (node o left right).operators := by
      rw [operators]
      exact List.mem_append_right _ List.mem_cons_self
    rw [graft, if_pos (h o ho)]

end Formula

/-- The formula that groups a chain. -/
def Chain.formula : Chain → Formula
  | .last w => .leaf w
  | .link w op rest => rest.formula.graft w op

namespace Formula

/-- The formula of a chain is grouped. -/
theorem grouped_formula (c : Chain) : c.formula.Grouped := by
  induction c with
  | last w => trivial
  | link w op rest ih => exact ih.graft w op

/-- The formula of a chain groups that chain. -/
theorem chain_formula (c : Chain) : c.formula.chain = c := by
  induction c with
  | last w => rfl
  | link w op rest ih => rw [Chain.formula, chain_graft, ih]

theorem operators_formula (c : Chain) : c.formula.operators = c.operators := by
  rw [← operators_chain, chain_formula]

/-- Where chains are joined by an operator that is looser than those before it, and not
tighter than those behind it, that operator is the root. -/
theorem formula_join {op : Operator} {c d : Chain}
    (hc : ∀ o ∈ c.operators, op.tightness < o.tightness)
    (hd : ∀ o ∈ d.operators, op.tightness ≤ o.tightness) :
    (c.join op d).formula = .node op c.formula d.formula := by
  induction c with
  | last w =>
    rw [← operators_formula] at hd
    exact graft_of_le w op hd
  | link w o rest ih =>
    rw [Chain.operators, List.forall_mem_cons] at hc
    rw [Chain.join, Chain.formula, ih hc.2, graft, if_neg (Nat.not_le.mpr hc.1), Chain.formula]

/-- A grouped formula is the one of its chain. -/
theorem formula_chain {f : Formula} (h : f.Grouped) : f.chain.formula = f := by
  induction f with
  | leaf w => rfl
  | node op left right ihleft ihright =>
    obtain ⟨hleft, hright, hgleft, hgright⟩ := h
    rw [← operators_chain] at hleft hright
    rw [chain, formula_join hleft hright, ihleft hgleft, ihright hgright]

end Formula

end LineScript
