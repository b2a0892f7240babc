import LineScript.Proofs.Ending
import LineScript.Proofs.Piece
import LineScript.Proofs.SafeNumber

set_option autoImplicit false

/-!
# Evaluation in a sound environment

An environment is sound if its names are ones that a line can bind and its values
are texts, doubles and safe integers.  Evaluation in a sound environment can only
fail by depth, and only if the text holds at least as many operators as the budget
has steps.

Proved: expressions, conditions, the sources of an assignment and the entry of a
print statement all have a result of the right kind, unless their texts are that
deep (`Expression.eval_sound`, `Condition.eval_sound`, `sources_sound`,
`entryOf_sound`).
-/

namespace LineScript

/-! ## Soundness -/

/-- The value is a text, a double or a safe integer. -/
def Value.Sound : Value → Prop
  | .num n => n.Safe
  | .text _ => True
  | .bool _ => False

instance : DecidablePred Value.Sound
  | .num n => inferInstanceAs (Decidable n.Safe)
  | .text _ => isTrue trivial
  | .bool _ => isFalse id

theorem Value.Sound.asOperand {v : Value} (h : v.Sound) : v.asOperand.Safe := by
  cases v with
  | num n => exact h
  | text t => exact Nat.zero_le _
  | bool b => exact h.elim

theorem Value.Sound.written {v : Value} (h : v.Sound) : ∃ t, v.written = .ok t := by
  cases v with
  | num n => exact Number.written_of_safe h
  | text t => exact ⟨t, rfl⟩
  | bool b => exact h.elim

namespace Environment

/-- A property of all bindings is kept by putting in one that has it. -/
theorem forall_mem_insert {Q : Text × Value → Prop} {name : Text} {v : Value}
    {bs : List (Text × Value)} (hnew : Q (name, v)) (hold : ∀ b ∈ bs, Q b) :
    ∀ b ∈ insert name v bs, Q b := by
  induction bs with
  | nil =>
    intro b hb
    rw [insert, List.mem_singleton] at hb
    exact hb ▸ hnew
  | cons c rest ih =>
    have hrest : ∀ b ∈ rest, Q b := fun b hb => hold b (List.mem_cons_of_mem _ hb)
    intro b hb
    rw [insert] at hb
    split at hb
    · rcases List.mem_cons.mp hb with rfl | hm
      · exact hnew
      · exact hrest b hm
    · rcases List.mem_cons.mp hb with rfl | hm
      · exact hold _ List.mem_cons_self
      · exact ih hrest b hm

/-- A property of all bindings is kept by binding names in turn, if every name has
it with every value, and with the zero that stands in for a missing one. -/
theorem forall_mem_bind {Q : Text × Value → Prop} {env : Environment} {names : List Text}
    {values : List Value} (hold : ∀ b ∈ env.bindings, Q b)
    (hnew : ∀ x ∈ names, ∀ v, v ∈ values ∨ v = .int 0 → Q (x, v)) :
    ∀ b ∈ (env.bind names values).bindings, Q b := by
  induction names generalizing env values with
  | nil => exact hold
  | cons name names ih =>
    have hname := hnew name List.mem_cons_self
    cases values with
    | nil =>
      apply ih (forall_mem_insert (hname _ (Or.inr rfl)) hold)
      intro x hx
      exact hnew x (List.mem_cons_of_mem _ hx)
    | cons w values =>
      apply ih (forall_mem_insert (hname w (Or.inl List.mem_cons_self)) hold)
      intro x hx v hv
      apply hnew x (List.mem_cons_of_mem _ hx) v
      exact hv.imp_left (List.mem_cons_of_mem _)

/-- The bound names are targets on one line, and the bound values are sound. -/
def Sound (env : Environment) : Prop :=
  ∀ b ∈ env.bindings, (IsTarget b.1 ∧ '\n' ∉ b.1) ∧ b.2.Sound

theorem empty_sound : Environment.empty.Sound := by
  intro b hb
  exact absurd hb (by simp [empty])

theorem Sound.read {env : Environment} (h : env.Sound) (name : Text) :
    (env.read name).Sound := by
  unfold Environment.read get?
  cases hl : env.bindings.lookup name with
  | none => exact Nat.zero_le _
  | some v =>
    obtain ⟨l₁, l₂, hb, -⟩ := List.lookup_eq_some_iff.mp hl
    exact (h (name, v) (by simp [hb])).2

theorem Sound.bind {env : Environment} (h : env.Sound) {names : List Text}
    {values : List Value} (hnames : ∀ x ∈ names, IsTarget x ∧ '\n' ∉ x)
    (hvalues : ∀ v ∈ values, v.Sound) : (env.bind names values).Sound := by
  apply forall_mem_bind h
  intro x hx v hv
  refine ⟨hnames x hx, ?_⟩
  rcases hv with hv | rfl
  · exact hvalues v hv
  · exact Nat.zero_le _

end Environment

/-! ## Depth -/

/-- How many operator characters a text holds. -/
def Operator.count (t : Text) : Nat :=
  t.countP fun c => Operator.all.any fun op => op.symbol = c

theorem Operator.count_le_of_infix {s t : Text} (h : s <:+: t) : count s ≤ count t :=
  h.sublist.countP_le

theorem Operator.count_split (op : Operator) (l r : Text) :
    count (l ++ [op.symbol] ++ r) = count l + count r + 1 := by
  have hop : count [op.symbol] = 1 := by
    cases op with
    | add => rfl
    | sub => rfl
    | mul => rfl
    | div => rfl
  have hsum : count (l ++ [op.symbol] ++ r) = count l + count [op.symbol] + count r := by
    simp only [count, List.countP_append]
  omega

/-- The result is as described, or the fault is one of depth, for a reason. -/
def Settles {α : Type} (P : α → Prop) (deep : Prop) : Except Fault α → Prop
  | .ok a => P a
  | .error f => f = .nestingTooDeep ∧ deep

theorem Settles.imp {α : Type} {P Q : α → Prop} {deep deep' : Prop} {m : Except Fault α}
    (h : Settles P deep m) (hP : ∀ a, P a → Q a) (hd : deep → deep') : Settles Q deep' m := by
  cases m with
  | ok a => exact hP a h
  | error f => exact ⟨h.1, hd h.2⟩

theorem Settles.mono {α : Type} {P : α → Prop} {deep deep' : Prop} {m : Except Fault α}
    (h : Settles P deep m) (hd : deep → deep') : Settles P deep' m :=
  h.imp (fun _ hp => hp) hd

theorem Settles.bind {α β : Type} {P : α → Prop} {Q : β → Prop} {deep : Prop}
    {m : Except Fault α} {f : α → Except Fault β} (hm : Settles P deep m)
    (hf : ∀ a, P a → Settles Q deep (f a)) : Settles Q deep (m >>= f) := by
  cases m with
  | ok a => exact hf a hm
  | error e => exact hm

/-! ## Expressions -/

namespace Expression

/-- What a text of the shape is like. -/
def Shape.Of (e : Text) : Shape → Prop
  | .quoted body => unquote? e = some body
  | .literal t => ∃ l, Decimal.Literal.ofText? e = some l ∧ t = e
  | .name x => isName e = true ∧ x = e
  | .binary op left right => split? e = some (op, left, right)
  | .plain t => t = e

/-- A text is what its shape says. -/
theorem of_shape {e : Text} {s : Shape} (h : shape e = s) : s.Of e := by
  subst h
  unfold shape
  split
  · rename_i hquoted
    exact hquoted
  · split
    · rename_i l hl
      exact ⟨l, hl, rfl⟩
    · split
      · rename_i hname
        exact ⟨hname, rfl⟩
      · split
        · rename_i hsplit
          exact hsplit
        · exact rfl

theorem split?_of_shape {e l r : Text} {op : Operator} (h : shape e = .binary op l r) :
    split? e = some (op, l, r) :=
  of_shape h

/-- In a sound environment an expression has a sound value, unless it is as deep
as the budget. -/
theorem eval_sound {env : Environment} (henv : env.Sound) (budget : Nat) (t : Text) :
    Settles Value.Sound (budget ≤ Operator.count t) (eval env budget t) := by
  induction budget generalizing t with
  | zero => exact ⟨rfl, Nat.zero_le _⟩
  | succ budget ih =>
    have hstrip := Operator.count_le_of_infix (Text.strip_infix t)
    rw [eval]
    cases hs : shape (Text.strip t) with
    | quoted body => exact trivial
    | literal e =>
      obtain ⟨l, hl, rfl⟩ := of_shape hs
      simp only [Number.readLiteral_of_ofText? hl]
      exact Number.ofLiteral_safe _ l
    | name x => exact henv.read x
    | plain e => exact trivial
    | binary op left right =>
      -- the operator itself is one more than the operands hold
      have hcount := congrArg Operator.count (split?_eq_some (split?_of_shape hs))
      rw [Operator.count_split] at hcount
      apply ((ih left).mono (by omega)).bind
      intro x hx
      apply ((ih right).mono (by omega)).bind
      intro y hy
      obtain ⟨z, hz⟩ := op.apply_of_safe hx.asOperand hy.asOperand
      rw [hz]
      exact z.normalize_safe

end Expression

/-- In a sound environment a condition is true or false, unless it is as deep as
the budget. -/
theorem Condition.eval_sound {env : Environment} (henv : env.Sound) (budget : Nat) (t : Text) :
    Settles (fun _ => True) (budget ≤ Operator.count t) (Condition.eval env budget t) := by
  have hpiece : ∀ e, e <:+: Text.strip t →
      Settles Value.Sound (budget ≤ Operator.count t) (Expression.eval env budget e) := by
    intro e he
    apply (Expression.eval_sound henv budget e).mono
    intro hb
    exact Nat.le_trans hb (Operator.count_le_of_infix (he.trans (Text.strip_infix t)))
  unfold Condition.eval
  split
  · rename_i op left right hs
    have hsides := Condition.infix_of_split? hs
    exact (hpiece left hsides.1).bind fun _ _ => (hpiece right hsides.2).bind fun _ _ => trivial
  · exact (hpiece _ List.infix_rfl).bind fun _ _ => trivial

/-! ## Simple statements -/

/-- In a sound environment the sources of an assignment have sound values, unless
one of them is as deep as the budget. -/
theorem sources_sound {env : Environment} (henv : env.Sound) (budget : Nat)
    (sources : List Text) :
    Settles (fun values => ∀ v ∈ values, Value.Sound v)
      (∃ e ∈ sources, budget ≤ Operator.count e)
      (sources.mapM (Expression.eval env budget)) := by
  induction sources with
  | nil => exact fun v hv => absurd hv (by simp)
  | cons e rest ih =>
    rw [List.mapM_cons]
    have he := Expression.eval_sound henv budget e
    apply (he.mono fun hb => ⟨e, List.mem_cons_self, hb⟩).bind
    intro v hv
    apply (ih.mono fun ⟨e', hm, hb⟩ => ⟨e', List.mem_cons_of_mem _ hm, hb⟩).bind
    intro values hvalues w hw
    rcases List.mem_cons.mp hw with rfl | hw
    · exact hv
    · exact hvalues w hw

/-- In a sound environment a print statement has an entry to add, unless its
argument is as deep as the budget. -/
theorem entryOf_sound {env : Environment} (henv : env.Sound) (budget : Nat) (argument : Text) :
    Settles (fun _ => True) (budget ≤ Operator.count argument)
      (Run.entryOf env budget argument) := by
  unfold Run.entryOf
  split
  · exact trivial
  · have hstrip := Operator.count_le_of_infix (Text.strip_infix argument)
    apply ((Expression.eval_sound henv budget (Text.strip argument)).mono (by omega)).bind
    intro v hv
    obtain ⟨t, ht⟩ := hv.written
    rw [ht]
    exact trivial

end LineScript
