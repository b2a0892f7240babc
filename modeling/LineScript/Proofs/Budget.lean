import LineScript.Proofs.Reach
import LineScript.Proofs.Sequence

set_option autoImplicit false

/-!
# Larger budgets

A budget is asked for nothing but whether it is used up.  So what does not end by depth
is the same with every larger budget; and what does end by depth has come as far as it
would have come with a larger one, and no other way.

Proved: a larger budget gives an expression the same value and the same fault, unless the
fault is one of depth (`Expression.eval_extends`), and so with whole trees
(`Tree.run_extends`) and programs: a program that runs to its end does the same with every
larger budget (`Outcome.ofProgram_of_ends`), and one that ends by depth has printed the
beginning of what it prints with a larger one (`Outcome.output_prefix_of_le`).
-/

namespace LineScript

variable {α β : Type}

/-! ## Results -/

/-- The second result is the first, unless the first is the fault of depth. -/
def Extends (r r' : Except Fault α) : Prop := r = .error .nestingTooDeep ∨ r' = r

theorem extends_refl (r : Except Fault α) : Extends r r := Or.inr rfl

theorem Extends.bind {r r' : Except Fault α} {f f' : α → Except Fault β} (h : Extends r r')
    (hf : ∀ a, Extends (f a) (f' a)) : Extends (r >>= f) (r' >>= f') := by
  rcases h with rfl | rfl
  · exact Or.inl rfl
  · cases r' with
    | error f => exact extends_refl _
    | ok a => exact hf a

/-- Results in turn extend each other if each of them does. -/
theorem mapM_extends {f f' : α → Except Fault β} (hf : ∀ a, Extends (f a) (f' a))
    (l : List α) : Extends (l.mapM f) (l.mapM f') := by
  induction l with
  | nil => exact extends_refl _
  | cons a l ih =>
    rw [List.mapM_cons, List.mapM_cons]
    exact (hf a).bind fun b => ih.bind fun bs => extends_refl _

section

variable {b b' : Nat} (hle : b ≤ b') (env : Environment)
include hle

/-- An expression has the same value or the same fault with a larger budget, unless the
fault is one of depth. -/
theorem Expression.eval_extends (t : Text) : Extends (eval env b t) (eval env b' t) := by
  induction b generalizing b' t with
  | zero => exact Or.inl rfl
  | succ b ih =>
    obtain ⟨b', rfl⟩ := Nat.exists_eq_add_of_le' (show 1 ≤ b' by omega)
    rw [eval, eval]
    cases shape (Text.strip t) with
    | quoted body => exact extends_refl _
    | literal e => exact extends_refl _
    | name x => exact extends_refl _
    | plain e => exact extends_refl _
    | binary op left right =>
      have hle' : b ≤ b' := by omega
      exact (ih hle' left).bind fun x => (ih hle' right).bind fun y => extends_refl _

theorem Condition.eval_extends (t : Text) : Extends (eval env b t) (eval env b' t) := by
  unfold eval
  split
  · rename_i op left right _
    exact (Expression.eval_extends hle env left).bind fun v =>
      (Expression.eval_extends hle env right).bind fun w => extends_refl _
  · exact (Expression.eval_extends hle env _).bind fun v => extends_refl _

theorem Run.entryOf_extends (argument : Text) :
    LineScript.Extends (entryOf env b argument) (entryOf env b' argument) := by
  unfold entryOf
  split
  · exact extends_refl _
  · exact (Expression.eval_extends hle env _).bind fun v => extends_refl _

end

/-! ## Actions -/

namespace Run

/-- The action only adds to the output. -/
def Grows (m : Run α) : Prop :=
  ∀ entries : List Text, Keeps (fun s => entries <+: s.output.toList) (fun _ => True) m

theorem Grows.output_grows {m : Run α} (h : Grows m) (s : State) :
    s.output.toList <+: (ending m s).1.output.toList :=
  (h s.output.toList s List.prefix_rfl).1

/-- The second action ends as the first one does, unless the first ends by depth; and then
the second has printed at least as much. -/
def Extends (m m' : Run α) : Prop :=
  ∀ s, m' s = m s ∨
    ∃ t, m s = .error .nestingTooDeep t ∧ t.output.toList <+: (ending m' s).1.output.toList

theorem Extends.refl (m : Run α) : Extends m m := fun _ => Or.inl rfl

theorem Extends.eq_ok {m m' : Run α} (h : Extends m m') {s t : State} {a : α}
    (hrun : m s = .ok a t) : m' s = .ok a t := by
  rcases h s with heq | ⟨u, hdeep, -⟩
  · exact heq.trans hrun
  · exact absurd (hrun.symm.trans hdeep) (by simp)

/-- Sequences extend each other if their parts do. -/
theorem Extends.bind {m m' : Run α} {f f' : α → Run β} (hm : Extends m m')
    (hf : ∀ a, Extends (f a) (f' a)) (hgrows : ∀ a, Grows (f' a)) :
    Extends (m >>= f) (m' >>= f') := by
  intro s
  rcases hm s with heq | ⟨t, ht, hprefix⟩
  · rw [bind_apply, bind_apply, heq]
    cases hrun : m s with
    | error e t => exact Or.inl rfl
    | ok a t =>
      rw [hrun] at heq
      rw [ending_bind_of_ok heq]
      exact hf a t
  · refine Or.inr ⟨t, by rw [bind_apply, ht], hprefix.trans ?_⟩
    cases hrun : m' s with
    | error e u =>
      have heq : (ending (m' >>= f') s).1 = (ending m' s).1 := by
        rw [ending_bind_of_error hrun, ending_of_error hrun]
      exact heq ▸ List.prefix_rfl
    | ok a u =>
      rw [ending_bind_of_ok hrun, ending_of_ok hrun]
      exact (hgrows a).output_grows u

/-- An action that settles on a result first extends another if the result does. -/
theorem extends_of_proceed {m m' : Run α} {result result' : State → Except Fault β}
    {go : State → β → EStateM.Result Fault State α}
    (hm : ∀ s, m s = proceed s (go s) (result s)) (hm' : ∀ s, m' s = proceed s (go s) (result' s))
    (hresult : ∀ s, LineScript.Extends (result s) (result' s)) (hgrows : Grows m') :
    Extends m m' := by
  intro s
  rcases hresult s with hdeep | heq
  · refine Or.inr ⟨s, ?_, hgrows.output_grows s⟩
    rw [hm, hdeep]
    rfl
  · left
    rw [hm, hm', heq]

/-- Loops extend each other if their tests and their bodies do. -/
theorem whileUpTo_extends {test test' : Run Bool} {body body' : Run Unit}
    (htest : Extends test test') (hbody : Extends body body') (htestGrows : Grows test')
    (hbodyGrows : Grows body') (n : Nat) :
    Extends (whileUpTo test body n) (whileUpTo test' body' n) := by
  have hloop : ∀ n, Grows (whileUpTo test' body' n) := fun n entries =>
    (htestGrows entries).whileUpTo (hbodyGrows entries) n
  induction n with
  | zero => exact .refl _
  | succ n ih =>
    refine htest.bind (fun b => ?_) fun b => ?_
    · cases b with
      | false => exact .refl _
      | true => exact hbody.bind (fun _ => ih) fun _ => hloop n
    · cases b with
      | false => exact fun entries => keeps_pure ()
      | true => exact fun entries => (hbodyGrows entries).bind fun _ => hloop n entries

end Run

/-! ## Trees -/

/-- What the statement evaluates or does only adds to the output. -/
theorem Statement.grows (st : Statement) {m : Run Unit} {budget : Nat}
    (h : st.simple? budget = some m) : Run.Grows m :=
  fun entries => (keeps_output entries st budget).simple h

theorem Run.holds_grows (budget : Nat) (condition : Text) : Grows (holds budget condition) :=
  fun entries => Statement.keeps_output entries (.block .once condition) budget

section

variable {b b' : Nat} (hle : b ≤ b')
include hle

theorem Run.assign_extends (a : Assignment) : Extends (assign b a) (assign b' a) :=
  extends_of_proceed (assign_apply b a) (assign_apply b' a)
    (fun s => mapM_extends (Expression.eval_extends hle s.env) a.sources)
    (Statement.grows (.assign a) rfl)

theorem Run.print_extends (argument : Option Text) :
    Extends (print b argument) (print b' argument) := by
  cases argument with
  | none => exact .refl _
  | some argument =>
    exact extends_of_proceed (print_apply b argument) (print_apply b' argument)
      (fun s => entryOf_extends hle s.env argument)
      (Statement.grows (.print (some argument)) rfl)

theorem Run.holds_extends (condition : Text) :
    Extends (holds b condition) (holds b' condition) :=
  extends_of_proceed (holds_apply b condition) (holds_apply b' condition)
    (fun s => Condition.eval_extends hle s.env condition) (holds_grows b' condition)

end

namespace Tree

theorem all_of_forall {q : Statement → Prop} (h : ∀ st, q st) (t : Tree) : t.All q := by
  induction t with
  | done => exact trivial
  | assign a rest ih => exact ⟨h _, ih⟩
  | print argument rest ih => exact ⟨h _, ih⟩
  | ignored rest ih => exact ⟨h _, ih⟩
  | block kind condition body rest ihbody ihrest => exact ⟨h _, ihbody, ihrest⟩

theorem run_grows (cap : Int) (t : Tree) (budget : Nat) : Run.Grows (t.run cap budget) :=
  fun entries => run_keeps cap 0 t budget
    (all_of_forall (fun st b _ _ => Statement.keeps_output entries st b) t) (Or.inl trivial)

variable {b b' : Nat}

theorem nested_grows {body : Nat → Run Unit} (hbody : ∀ left, Run.Grows (body left)) :
    Run.Grows (nested b body) :=
  fun entries => nested_keeps (fun _ => trivial) fun _ => hbody _ entries

/-- Where the smaller budget does not allow a block, the larger one may. -/
theorem nested_extends (hle : b ≤ b') {body : Nat → Run Unit}
    (hbody : ∀ left left', left ≤ left' → Run.Extends (body left) (body left'))
    (hgrows : ∀ left, Run.Grows (body left)) : Run.Extends (nested b body) (nested b' body) := by
  by_cases hb : b < Run.blockCost
  · intro s
    refine Or.inr ⟨s, ?_, (nested_grows hgrows).output_grows s⟩
    rw [nested, if_pos hb]
    rfl
  · rw [nested, nested, if_neg hb, if_neg (by omega)]
    exact hbody _ _ (by omega)

theorem perform_extends (cap : Int) {test test' : Run Bool} {body body' : Run Unit}
    (htest : Run.Extends test test') (hbody : Run.Extends body body')
    (htestGrows : Run.Grows test') (hbodyGrows : Run.Grows body') (kind : BlockKind) :
    Run.Extends (perform cap test body kind) (perform cap test' body' kind) := by
  cases kind with
  | once =>
    refine htest.bind (fun b => ?_) fun b => ?_
    · cases b with
      | false => exact .refl _
      | true => exact hbody
    · cases b with
      | false => exact fun entries => Run.keeps_pure ()
      | true => exact hbodyGrows
  | repeated => exact Run.whileUpTo_extends htest hbody htestGrows hbodyGrows cap.toNat

/-- A tree is run with a larger budget as with a smaller one, unless that run ends by
depth. -/
theorem run_extends (cap : Int) (t : Tree) (hle : b ≤ b') :
    Run.Extends (t.run cap b) (t.run cap b') := by
  induction t generalizing b b' with
  | done => exact .refl _
  | assign a rest ih =>
    exact (Run.assign_extends hle a).bind (fun _ => ih hle) fun _ => run_grows cap rest b'
  | print argument rest ih =>
    exact (Run.print_extends hle argument).bind (fun _ => ih hle) fun _ => run_grows cap rest b'
  | ignored rest ih => exact ih hle
  | block kind condition body rest ihbody ihrest =>
    have hgrows : ∀ left, Run.Grows (body.run cap left) := run_grows cap body
    have hnested : Run.Extends (nested b fun left => body.run cap left)
        (nested b' fun left => body.run cap left) :=
      nested_extends hle (fun left left' hleft => ihbody hleft) hgrows
    have hblock := perform_extends cap (Run.holds_extends hle condition) hnested
      (Run.holds_grows b' condition) (nested_grows hgrows) kind
    exact hblock.bind (fun _ => ihrest hle) fun _ => run_grows cap rest b'

end Tree

/-! ## Programs -/

/-- A program has the same outcome with a larger budget, or it ends by depth with the
smaller one; and then it has printed the beginning of what it prints with the larger. -/
theorem Outcome.ofProgram_of_le (cap : Int) (code : Text) {b b' : Nat} (hle : b ≤ b') :
    ofProgram cap code b' = ofProgram cap code b ∨
      (ofProgram cap code b).fault = some .nestingTooDeep ∧
        (ofProgram cap code b).output <+: (ofProgram cap code b').output := by
  rw [ofProgram_eq_endingFrom, ofProgram_eq_endingFrom, Lines.endingFrom_eq, Lines.endingFrom_eq]
  rcases Tree.run_extends cap (Tree.ofLines 0 (Lines.ofText code).toList) hle {} with
    heq | ⟨t, ht, hprefix⟩
  · left
    rw [Run.ending, Run.ending, heq]
  · right
    rw [Run.ending_of_error ht]
    exact ⟨rfl, Text.intercalate_prefix ['\n'] hprefix⟩

/-- A program that runs to its end does the same with every larger budget. -/
theorem Outcome.ofProgram_of_ends (cap : Int) (code : Text) {b b' : Nat} (hle : b ≤ b')
    (hends : (ofProgram cap code b).fault = none) :
    ofProgram cap code b' = ofProgram cap code b := by
  rcases ofProgram_of_le cap code hle with heq | ⟨hdeep, -⟩
  · exact heq
  · exact absurd (hends.symm.trans hdeep) (by simp)

/-- However a program ends, it prints no less with a larger budget. -/
theorem Outcome.output_prefix_of_le (cap : Int) (code : Text) {b b' : Nat} (hle : b ≤ b') :
    (ofProgram cap code b).output <+: (ofProgram cap code b').output := by
  rcases ofProgram_of_le cap code hle with heq | ⟨-, hprefix⟩
  · exact heq ▸ List.prefix_rfl
  · exact hprefix

end LineScript
