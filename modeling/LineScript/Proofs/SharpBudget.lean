import LineScript.Proofs.Budget
import LineScript.Proofs.Counting

set_option autoImplicit false

/-!
# A program for every budget

A sum of ones groups to the right, so each plus sign nests the rest of the sum one deeper.
It is evaluated with any budget that is larger than the sum has plus signs and with no
other, and so no budget does what the next larger one does.

Proved: the value of the sum with each budget (`Expression.eval_onesSum`), how a program of
one line that prints runs (`Outcome.ofProgram_print`), and the budgets that are enough for the
program that prints the sum (`Outcome.ofProgram_onesProgram`).
-/

namespace LineScript

/-! ## Sums of ones -/

theorem isDigits_one : Text.IsDigits ['1'] := by decide

/-- One. -/
def one : Formula := .leaf (spacedWhole [] ['1'] [] List.all_nil isDigits_one List.all_nil)

/-- A sum of ones, with so many plus signs. -/
def onesSum : Nat → Formula
  | 0 => one
  | n + 1 => .node .add one (onesSum n)

theorem height_onesSum (n : Nat) : (onesSum n).height = n := by
  induction n with
  | zero => rfl
  | succ n ih =>
    rw [onesSum, Formula.height, ih]
    exact congrArg (· + 1) (Nat.zero_max n)

theorem grouped_onesSum (n : Nat) : (onesSum n).Grouped := by
  induction n with
  | zero => trivial
  | succ n ih => exact ⟨by simp [one, Formula.operators], fun o _ => Nat.zero_le _, trivial, ih⟩

theorem exact_onesSum (env : Environment) {n : Nat} (hn : n < Number.safeLimit) :
    (onesSum n).Exact env (n + 1) := by
  induction n with
  | zero => exact .leaf rfl
  | succ n ih =>
    have hsum : ((n + 1 : Nat) : Int) + 1 = 1 + ((n : Int) + 1) := by omega
    rw [hsum]
    exact .add (.leaf rfl) (ih (by omega)) (by omega)

theorem mem_onesSum {n : Nat} {c : Char} (h : c ∈ (onesSum n).chain.text) :
    c = '1' ∨ c = '+' := by
  induction n with
  | zero => exact Or.inl (List.mem_singleton.mp h)
  | succ n ih =>
    rw [onesSum, Formula.chain, Chain.text_join, List.mem_append, List.mem_cons] at h
    rcases h with h | h | h
    · exact Or.inl (List.mem_singleton.mp h)
    · exact Or.inr h
    · exact ih h

theorem isBlank_of_mem_onesSum {n : Nat} {c : Char} (h : c ∈ (onesSum n).chain.text) :
    Text.isBlank c = false := by
  rcases mem_onesSum h with rfl | rfl <;> decide

theorem strip_onesSum (n : Nat) :
    Text.strip (onesSum n).chain.text = (onesSum n).chain.text :=
  Text.strip_eq_self (fun _ hc => isBlank_of_mem_onesSum (List.mem_of_head? hc))
    fun _ hc => isBlank_of_mem_onesSum (List.mem_of_getLast? hc)

theorem onesSum_ne_nil (n : Nat) : (onesSum n).chain.text ≠ [] := by
  intro hnil
  obtain ⟨d, ds, hhead, -⟩ := (onesSum n).chain.exists_dropWhile_text
  rw [hnil] at hhead
  exact absurd hhead (by simp)

/-- The sum has its value if the budget is larger than it has plus signs, and is too deep if the
budget is not. -/
theorem Expression.eval_onesSum (env : Environment) {n : Nat} (hn : n < Number.safeLimit)
    (budget : Nat) : eval env budget (onesSum n).chain.text =
      if n < budget then .ok (.int (n + 1 : Nat)) else .error .nestingTooDeep := by
  have hgrouped := grouped_onesSum n
  have hvalue : ∀ b, n < b → eval env b (onesSum n).chain.text = .ok (.int (n + 1 : Nat)) := by
    intro b hb
    rw [hgrouped.eval_text env (by rwa [height_onesSum]), (exact_onesSum env hn).value_eq]
    rfl
  by_cases hb : n < budget
  · rw [if_pos hb, hvalue budget hb]
  · rw [if_neg hb]
    have hheight : budget ≤ (onesSum n).height := by
      rw [height_onesSum]
      exact Nat.le_of_not_lt hb
    obtain ⟨fault, hfault⟩ := hgrouped.eval_text_error env hheight
    -- with a larger budget there is a value, so the fault is one of depth
    rcases eval_extends (show budget ≤ n + 1 by omega) env (onesSum n).chain.text with
      hdeep | heq
    · exact hdeep
    · rw [hvalue (n + 1) (Nat.lt_succ_self n), hfault] at heq
      exact absurd heq (by simp)

/-! ## Programs -/

namespace Outcome

/-- A program of one line prints an expression, or faults where the expression does. -/
theorem ofProgram_print (cap : Int) {t : Text} (hbreak : '\n' ∉ t) (hequals : '=' ∉ t)
    (budget : Nat) :
    ofProgram cap (printOpening ++ (t ++ [')'])) budget =
      match Run.entryOf .empty budget t with
      | .ok entry => ⟨entry, none⟩
      | .error f => ⟨[], some f⟩ := by
  have hopening : '\n' ∉ printOpening := by decide
  have hline : Lines.ofText (printOpening ++ (t ++ [')'])) = #[printOpening ++ (t ++ [')'])] := by
    rw [Lines.ofText, List.splitOn_eq_singleton (by simp [hopening, hbreak])]
  have hasks := @Line.asks_print [] t rfl hbreak hequals
  have htree : Tree.ofLines 0 [printOpening ++ (t ++ [')'])] = .print (some t) .done := by
    refine (Tree.ofLines_of_asks hasks [] rfl).trans ?_
    rw [Tree.first, Tree.ofLines.eq_1]
  rw [ofProgram_eq_endingFrom, Lines.endingFrom_eq, hline, htree, Tree.run, Tree.run]
  cases hentry : Run.entryOf .empty budget t with
  | ok entry =>
    have hprint : Run.print budget (some t) {} = .ok () { output := #[entry] } := by
      rw [Run.print_apply, hentry]
      rfl
    rw [Run.ending_bind_of_ok hprint]
    simp [Run.ending, pure, EStateM.pure, State.text]
  | error f =>
    have hprint : Run.print budget (some t) {} = .error f {} := by
      rw [Run.print_apply, hentry]
      rfl
    rw [Run.ending_bind_of_error hprint]
    rfl

end Outcome

/-- The program that prints a sum of ones. -/
def onesProgram (n : Nat) : Text := printOpening ++ ((onesSum n).chain.text ++ [')'])

theorem return_not_mem_onesProgram (n : Nat) : '\r' ∉ onesProgram n := by
  have hopening : '\r' ∉ printOpening := by decide
  have hsum : '\r' ∉ (onesSum n).chain.text := fun h => absurd (mem_onesSum h) (by decide)
  simp [onesProgram, hopening, hsum]

/-- The program prints the sum if the budget is larger than the sum has plus signs, and ends by
depth if it is not. -/
theorem Outcome.ofProgram_onesProgram (cap : Int) {n : Nat} (hn : n < Number.safeLimit)
    (budget : Nat) : ofProgram cap (onesProgram n) budget =
      if n < budget then ⟨Text.ofNat (n + 1), none⟩ else ⟨[], some .nestingTooDeep⟩ := by
  have hbreak : '\n' ∉ (onesSum n).chain.text := fun h => absurd (mem_onesSum h) (by decide)
  have hequals : '=' ∉ (onesSum n).chain.text := fun h => absurd (mem_onesSum h) (by decide)
  rw [onesProgram, ofProgram_print cap hbreak hequals, Run.entryOf, strip_onesSum,
    if_neg (onesSum_ne_nil n), Expression.eval_onesSum _ hn]
  by_cases hb : n < budget
  · rw [if_pos hb, if_pos hb]
    simp only [bind, Except.bind, Value.written_of_safe (show n + 1 ≤ Number.safeLimit from hn)]
  · rw [if_neg hb, if_neg hb]
    rfl

end LineScript
