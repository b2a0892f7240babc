import LineScript.Proofs.Doubles
import LineScript.Proofs.Names
import Mathlib.Data.List.Forall2

set_option autoImplicit false

/-!
# Programs whose numbers are all doubles

A run of the language and a run of its variant with doubles go in step: names read as the
same text, or as numbers that are matched, and nothing that a program can print or test
tells matched numbers apart.

Proved: expressions have matched values or the same fault (`Expression.eval_matches`);
comparisons, truth and printed texts agree on matched values (`Value.Matches.holds_eq`,
`Value.Matches.countsAsTrue_eq`, `Value.Matches.written_eq`); and so every program has the
same outcome in both (`Outcome.ofProgram_eq_allDoubles`).
-/

namespace LineScript

/-! ## Matched results -/

section

variable {α β γ δ : Type} {R : α → β → Prop} {Q : γ → δ → Prop}

/-- Both results are there and are related, or both are missing for the same fault. -/
inductive SameResult (R : α → β → Prop) : Except Fault α → Except Fault β → Prop
  | ok {a : α} {b : β} (h : R a b) : SameResult R (.ok a) (.ok b)
  | error (f : Fault) : SameResult R (.error f) (.error f)

theorem SameResult.bind {m : Except Fault α} {n : Except Fault β} {f : α → Except Fault γ}
    {g : β → Except Fault δ} (h : SameResult R m n)
    (hf : ∀ a b, R a b → SameResult Q (f a) (g b)) : SameResult Q (m >>= f) (n >>= g) := by
  cases h with
  | ok h => exact hf _ _ h
  | error e => exact .error e

theorem SameResult.mapM {f : γ → Except Fault α} {g : γ → Except Fault β}
    (h : ∀ c, SameResult R (f c) (g c)) (l : List γ) :
    SameResult (List.Forall₂ R) (l.mapM f) (l.mapM g) := by
  induction l with
  | nil => exact .ok .nil
  | cons c l ih =>
    rw [List.mapM_cons, List.mapM_cons]
    refine (h c).bind ?_
    intro a b hab
    refine ih.bind ?_
    intro as bs hrest
    exact .ok (.cons hab hrest)

end

/-! ## Matched values -/

/-- Both values are the same text, or numbers that are matched. -/
inductive Value.Matches : Value → Doubles.Value → Prop
  | num {n : Number} {x : Double} (h : n.Matches x) : Matches (.num n) (.number x)
  | text (t : Text) : Matches (.text t) (.text t)

theorem Number.compare_congr (holds : Place → Place → Bool) {x x' y y' : Number}
    (hx : x.place? = x'.place?) (hy : y.place? = y'.place?) :
    compare holds x y = compare holds x' y' := by
  rw [compare, compare, hx, hy]

namespace Value

theorem matches_zero : Matches (.int 0) .zero := .num (Number.matches_zero false)

section

variable {v : Value} {w : Doubles.Value} (h : v.Matches w)
include h

theorem Matches.operand : v.asOperand.Matches w.operand := by
  cases h with
  | num h => exact h
  | text t => exact Number.matches_zero false

theorem Matches.place?_eq : v.asNumber.place? = (Number.double w.compared).place? := by
  cases h with
  | num h => exact h.place?_eq
  | text t =>
    rw [asNumber, textNumber_eq, Doubles.Value.compared]
    by_cases hblank : Text.strip t = []
    · simp only [if_pos hblank]
      exact (Number.matches_zero false).place?_eq
    · simp only [if_neg hblank]
      cases Decimal.ofNumericText? (Text.strip t) with
      | some d => rfl
      | none => rfl

theorem Matches.countsAsTrue_eq : v.countsAsTrue = w.countsAsTrue := by
  cases h with
  | num h => rw [countsAsTrue, Doubles.Value.countsAsTrue, h.isNaN_eq, h.isZero_eq, decide_not]
  | text t => rfl

theorem Matches.written_eq : v.written = .ok w.written := by
  cases h with
  | num h => exact h.written_eq
  | text t => rfl

end

section

variable {v w : Value} {v' w' : Doubles.Value} (hv : v.Matches v') (hw : w.Matches w')
include hv hw

theorem Matches.agrees_eq : v.agrees w = v'.agrees w' := by
  have hsame : v.asNumber.same w.asNumber =
      Number.same (.double v'.compared) (.double w'.compared) :=
    Number.compare_congr _ hv.place?_eq hw.place?_eq
  cases hv with
  | num hv =>
    cases hw with
    | num hw => exact hsame
    | text t => exact hsame
  | text s =>
    cases hw with
    | num hw => exact hsame
    | text t => rfl

/-- No comparison tells matched values apart. -/
theorem Matches.holds_eq (op : Comparison) : op.holds v w = Doubles.compare op v' w' := by
  cases op with
  | atLeast => exact Number.compare_congr _ hw.place?_eq hv.place?_eq
  | atMost => exact Number.compare_congr _ hv.place?_eq hw.place?_eq
  | greater => exact Number.compare_congr _ hw.place?_eq hv.place?_eq
  | less => exact Number.compare_congr _ hv.place?_eq hw.place?_eq
  | equal => exact hv.agrees_eq hw
  | unequal => exact congrArg (!·) (hv.agrees_eq hw)

end

end Value

namespace Environment

/-- Every name reads as matched values. -/
def Matches (env : Environment) (env' : Doubles.Environment) : Prop :=
  ∀ x, (env.read x).Matches (env' x)

theorem Matches.set {env : Environment} {env' : Doubles.Environment} (h : env.Matches env')
    (name : Text) {v : Value} {w : Doubles.Value} (hvalue : v.Matches w) :
    (env.set name v).Matches fun x => if x = name then w else env' x := by
  intro x
  simp only [read_set]
  split
  · exact hvalue
  · exact h x

theorem Matches.bind {env : Environment} {env' : Doubles.Environment} (h : env.Matches env')
    (targets : List Text) {values : List Value} {values' : List Doubles.Value}
    (hvalues : List.Forall₂ Value.Matches values values') :
    (env.bind targets values).Matches (Doubles.bind env' targets values') := by
  induction targets generalizing env env' values values' with
  | nil => exact h
  | cons name targets ih =>
    cases hvalues with
    | nil => exact ih (h.set name Value.matches_zero) .nil
    | cons hvalue hrest => exact ih (h.set name hvalue) hrest

end Environment

/-! ## Matched runs -/

section

variable {env : Environment} {env' : Doubles.Environment} (henv : env.Matches env')
include henv

/-- In matched environments every expression has matched values, or the same fault. -/
theorem Expression.eval_matches (budget : Nat) (t : Text) :
    SameResult Value.Matches (eval env budget t) (Doubles.eval env' budget t) := by
  induction budget generalizing t with
  | zero => exact .error _
  | succ budget ih =>
    rw [eval, Doubles.eval]
    cases hs : shape (Text.strip t) with
    | quoted body => exact .ok (.text body)
    | literal e =>
      obtain ⟨l, hl, rfl⟩ := of_shape hs
      simp only [Doubles.ofLiteral, hl, Number.readLiteral_of_ofText? hl]
      exact .ok (.num (Number.ofLiteral_matches _ l))
    | name x => exact .ok (henv x)
    | plain e => exact .ok (.text e)
    | binary op left right =>
      refine (ih left).bind ?_
      intro x x' hx
      refine (ih right).bind ?_
      intro y y' hy
      obtain ⟨z, hz, hmatches⟩ := op.apply_matches hx.operand hy.operand
      rw [hz]
      exact .ok (.num hmatches)

theorem Condition.eval_matches (budget : Nat) (t : Text) :
    SameResult Eq (eval env budget t) (Doubles.test env' budget t) := by
  unfold eval Doubles.test
  rcases split? (Text.strip t) with _ | ⟨op, left, right⟩
  · refine (Expression.eval_matches henv budget _).bind ?_
    intro v v' hv
    exact .ok hv.countsAsTrue_eq
  · refine (Expression.eval_matches henv budget left).bind ?_
    intro v v' hv
    refine (Expression.eval_matches henv budget right).bind ?_
    intro w w' hw
    exact .ok (hv.holds_eq hw op)

theorem Run.entryOf_matches (budget : Nat) (argument : Text) :
    SameResult Eq (entryOf env budget argument) (Doubles.entryOf env' budget argument) := by
  unfold entryOf Doubles.entryOf
  split
  · exact .ok rfl
  · refine (Expression.eval_matches henv budget _).bind ?_
    intro v v' hv
    rw [hv.written_eq]
    exact .ok rfl

end

/-- The states read alike, up to matched values, and have printed the same. -/
structure State.Matches (s : State) (s' : Doubles.State) : Prop where
  env : s.env.Matches s'.env
  output : s.output = s'.output

theorem State.matches_empty : State.Matches {} {} where
  env _ := Value.matches_zero
  output := rfl

/-- Actions that move on with matched results come to the same end. -/
theorem sameEnd_proceed {α β γ : Type} {Q : β → γ → Prop} {s : State} {s' : Doubles.State}
    (h : s.Matches s') {result : Except Fault β} {result' : Except Fault γ}
    (hresult : SameResult Q result result') {go : β → EStateM.Result Fault State α}
    {go' : γ → EStateM.Result Fault Doubles.State α}
    (hgo : ∀ b c, Q b c → SameEnd State.Matches (go b) (go' c)) :
    SameEnd State.Matches (Run.proceed s go result) (Doubles.proceed s' go' result') := by
  cases hresult with
  | ok hbc => exact hgo _ _ hbc
  | error f => exact .error f h

/-- Every statement goes in step with itself among doubles. -/
theorem Statement.inStep_doubles (st : Statement) (budget : Nat) :
    st.InStep State.Matches .standard Doubles.actions budget := by
  cases st with
  | assign a =>
    intro s s' h
    simp only [Actions.standard, Run.assign_apply, Doubles.actions]
    refine sameEnd_proceed h (.mapM (Expression.eval_matches h.env budget) a.sources) ?_
    intro values values' hvalues
    exact .ok () ⟨h.env.bind a.targets hvalues, h.output⟩
  | print argument =>
    cases argument with
    | none => exact inStep_pure ()
    | some argument =>
      intro s s' h
      simp only [Actions.standard, Run.print_apply, Doubles.actions]
      refine sameEnd_proceed h (Run.entryOf_matches h.env budget argument) ?_
      rintro entry _ rfl
      exact .ok () ⟨h.env, by rw [h.output]⟩
  | block kind condition =>
    intro s s' h
    simp only [Actions.standard, Run.holds_apply, Doubles.actions]
    refine sameEnd_proceed h (Condition.eval_matches h.env budget condition) ?_
    rintro b _ rfl
    exact .ok b h
  | ignored => exact trivial

/-- Every program prints the same, and ends with the same fault or without one, if all its
numbers are doubles. -/
theorem Outcome.ofProgram_eq_allDoubles (cap : Int) (code : Text) :
    Outcome.ofProgram cap code = Doubles.ofProgram cap code := by
  rw [← ofActions_standard]
  exact ofActions_eq Statement.inStep_doubles (fun _ _ h => h.output) State.matches_empty cap code

-- past the safe limit a sum is rounded, and a quotient by a negative zero is zero
example : Doubles.ofProgram 1000 "x = 9007199254740992 + 1\nprint(x)\nprint(x / -0)".toList =
    ⟨"9007199254740992\n0".toList, none⟩ := by
  decide +kernel

end LineScript
