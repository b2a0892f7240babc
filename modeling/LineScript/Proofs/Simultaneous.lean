import LineScript.Proofs.ChainValue
import LineScript.Proofs.Names
import Mathlib.Data.List.FinRange
import Mathlib.Data.List.Forall2
import Mathlib.Logic.Equiv.Fin.Rotate

set_option autoImplicit false

/-!
# Assignments to several names

An assignment to several names evaluates all its sources before it binds any name, so no
source sees what the same line binds.  Where a name stands more than once among the targets
its last place counts, a name without a source is bound to zero, and a source without a
name is evaluated all the same.

Proved: the bindings that such a line leaves (`Environment.bind_boundAtOnce`), on which
texts it does so (`Assignment.ofLine_written`), and that a line that rearranges the values
of names is undone by the line that rearranges them back, binding for binding
(`Run.assign_simultaneous`).
-/

namespace LineScript

namespace Environment

/-! ## Bindings made one after the other -/

theorem insert_insert (x : Text) (v w : Value) (bs : List (Text × Value)) :
    insert x w (insert x v bs) = insert x w bs := by
  induction bs with
  | nil => simp [insert]
  | cons b rest ih =>
    by_cases h : b.1 = x
    · simp [insert, h]
    · simp [insert, h, ih]

theorem insert_comm {x y : Text} (hne : x ≠ y) (v w : Value) {bs : List (Text × Value)}
    (hx : (bs.lookup x).isSome = true) :
    insert y w (insert x v bs) = insert x v (insert y w bs) := by
  induction bs with
  | nil => exact absurd hx (by simp)
  | cons b rest ih =>
    obtain ⟨z, u⟩ := b
    by_cases hzx : z = x
    · subst hzx
      simp [insert, hne]
    · have hrest : (rest.lookup x).isSome = true := by
        rwa [List.lookup_cons, beq_eq_false_iff_ne.mpr (Ne.symm hzx)] at hx
      by_cases hzy : z = y
      · simp [insert, hzy, Ne.symm hne]
      · simp [insert, hzx, hzy, ih hrest]

theorem insert_self {x : Text} {v : Value} {bs : List (Text × Value)}
    (h : bs.lookup x = some v) : insert x v bs = bs := by
  induction bs with
  | nil => exact absurd h (by simp)
  | cons b rest ih =>
    obtain ⟨z, u⟩ := b
    by_cases hzx : z = x
    · subst hzx
      rw [List.lookup_cons, beq_self_eq_true] at h
      simp only [Option.some.injEq] at h
      simp [insert, h]
    · rw [List.lookup_cons, beq_eq_false_iff_ne.mpr (Ne.symm hzx)] at h
      simp [insert, hzx, ih h]

/-- The name is bound. -/
def Binds (env : Environment) (x : Text) : Prop := (env.get? x).isSome = true

instance (env : Environment) (x : Text) : Decidable (env.Binds x) :=
  inferInstanceAs (Decidable (_ = true))

theorem set_set (env : Environment) (x : Text) (v w : Value) :
    (env.set x v).set x w = env.set x w := by
  rw [set, set, set, insert_insert]

theorem set_comm {env : Environment} {x y : Text} (hne : x ≠ y) (hx : env.Binds x)
    (v w : Value) : (env.set x v).set y w = (env.set y w).set x v := by
  rw [set, set, set, set, insert_comm hne v w hx]

theorem set_read {env : Environment} {x : Text} (h : env.Binds x) :
    env.set x (env.read x) = env := by
  obtain ⟨v, hv⟩ := Option.isSome_iff_exists.mp h
  rw [read, hv, Option.getD_some, set, insert_self hv]

theorem Binds.set {env : Environment} {x : Text} (h : env.Binds x) (y : Text) (v : Value) :
    (env.set y v).Binds x := by
  rw [Binds, get?_set]
  split
  · rfl
  · exact h

/-! ## Bindings made at once -/

/-- The first of several names gets the first value, or zero if there is none. -/
theorem bind_cons (env : Environment) (x : Text) (names : List Text) (values : List Value) :
    env.bind (x :: names) values =
      (env.set x (values[0]?.getD (.int 0))).bind names values.tail := by
  cases values with
  | nil => rfl
  | cons v values => rfl

/-- The second environment is the first with all the names bound at once. -/
structure BoundAtOnce (names : List Text) (values : List Value) (env env' : Environment) :
    Prop where
  /-- a name has the value at its last place, or zero if there is none -/
  last : ∀ (p : Nat) (x : Text), names[p]? = some x → (∀ q, p < q → names[q]? ≠ some x) →
    env'.get? x = some (values[p]?.getD (.int 0))
  others : ∀ x, x ∉ names → env'.get? x = env.get? x

theorem get?_bind_last {names : List Text} {p : Nat} {x : Text} (hp : names[p]? = some x)
    (hlast : ∀ q, p < q → names[q]? ≠ some x) (env : Environment) (values : List Value) :
    (env.bind names values).get? x = some (values[p]?.getD (.int 0)) := by
  induction names generalizing env values p with
  | nil => exact absurd hp (by simp)
  | cons name names ih =>
    rw [bind_cons]
    cases p with
    | zero =>
      obtain rfl := Option.some.inj hp
      have habsent : name ∉ names := by
        intro hmem
        obtain ⟨q, hq⟩ := List.mem_iff_getElem?.mp hmem
        exact hlast (q + 1) (Nat.succ_pos q) hq
      rw [get?_bind_of_not_mem habsent, get?_set, if_pos rfl]
    | succ p =>
      have hrest := ih hp (fun q hq => hlast (q + 1) (Nat.succ_lt_succ hq))
        (env.set name (values[0]?.getD (.int 0))) values.tail
      rw [hrest, List.getElem?_tail]

theorem bind_boundAtOnce (env : Environment) (names : List Text) (values : List Value) :
    BoundAtOnce names values env (env.bind names values) where
  last _ _ hp hlast := get?_bind_last hp hlast env values
  others _ hx := get?_bind_of_not_mem hx env values

/-! ## Binding again -/

theorem set_bind {x : Text} {names : List Text} (hx : x ∉ names) {env : Environment}
    (hbound : env.Binds x) (v : Value) (values : List Value) :
    (env.bind names values).set x v = (env.set x v).bind names values := by
  induction names generalizing env values with
  | nil => rfl
  | cons name names ih =>
    rw [List.mem_cons, not_or] at hx
    rw [bind_cons, bind_cons, ih hx.2 (hbound.set _ _), set_comm hx.1 hbound]

/-- Names that are bound again keep nothing of what they were bound to. -/
theorem bind_bind {names : List Text} (hnodup : names.Nodup) {env : Environment}
    (hbound : ∀ x ∈ names, env.Binds x) (values values' : List Value) :
    (env.bind names values).bind names values' = env.bind names values' := by
  induction names generalizing env values values' with
  | nil => rfl
  | cons name names ih =>
    obtain ⟨habsent, hrest⟩ := List.nodup_cons.mp hnodup
    rw [List.forall_mem_cons] at hbound
    have hlater : ∀ v, ∀ x ∈ names, (env.set name v).Binds x :=
      fun v x hx => (hbound.2 x hx).set name v
    rw [bind_cons env, bind_cons, set_bind habsent (hbound.1.set _ _), set_set,
      ih hrest (hlater _), ← bind_cons]

/-- Names that are bound to what they read as stay as they are. -/
theorem bind_read {names : List Text} {env : Environment} (hbound : ∀ x ∈ names, env.Binds x) :
    env.bind names (names.map env.read) = env := by
  induction names with
  | nil => rfl
  | cons name names ih =>
    rw [List.forall_mem_cons] at hbound
    rw [List.map_cons, bind, set_read hbound.1, ih hbound.2]

end Environment

/-! ## Lines -/

theorem Text.mem_intercalate {d c : Char} {parts : List Text} (h : c ∈ [d].intercalate parts) :
    c = d ∨ ∃ part ∈ parts, c ∈ part := by
  induction parts with
  | nil => exact absurd h (by simp)
  | cons part parts ih =>
    cases parts with
    | nil => exact Or.inr ⟨part, List.mem_cons_self, by simpa using h⟩
    | cons next rest =>
      rw [List.intercalate_cons_cons, List.mem_append, List.mem_append, List.mem_singleton] at h
      rcases h with (h | h) | h
      · exact Or.inr ⟨part, List.mem_cons_self, h⟩
      · exact Or.inl h
      · refine (ih h).imp_right ?_
        rintro ⟨other, hother, hc⟩
        exact ⟨other, List.mem_cons_of_mem _ hother, hc⟩

theorem Text.not_mem_of_not_mem_strip {c : Char} {t : Text} (hc : isBlank c = false)
    (h : c ∉ strip t) : c ∉ t := by
  obtain ⟨lead, tail, hlead, htail, hline⟩ := exists_strip t
  intro hmem
  rw [hline, List.mem_append, List.mem_append] at hmem
  rcases hmem with (hmem | hmem) | hmem
  · exact absurd (hlead c hmem) (by simp [hc])
  · exact h hmem
  · exact absurd (htail c hmem) (by simp [hc])

namespace Assignment

/-- The line that assigns sources to targets. -/
def written (targets sources : List Text) : Text :=
  [','].intercalate targets ++ '=' :: [','].intercalate sources

/-- An assignment is read as it is written, if the commas of its sources are not needed to
tell apart what goes to one name. -/
theorem ofLine_written {targets sources : List Text} (htargets : ∀ t ∈ targets, ',' ∉ t ∧ '=' ∉ t)
    (hsources : ∀ e ∈ sources, ',' ∉ e) (hsome : targets ≠ []) (hgiven : sources ≠ [])
    (hmany : 2 ≤ targets.length ∨ sources.length = 1) :
    ofLine (written targets sources) = ⟨targets.map Text.strip, sources⟩ := by
  have hequals : '=' ∉ [','].intercalate targets := by
    intro h
    rcases Text.mem_intercalate h with hcomma | ⟨t, ht, hmem⟩
    · exact absurd hcomma (by decide)
    · exact (htargets t ht).2 hmem
  rw [ofLine, written, Text.cut?_append_cons hequals]
  simp only [Option.getD_some]
  split
  · rw [List.splitOn_intercalate ',' (fun t ht => (htargets t ht).1) hsome,
      List.splitOn_intercalate ',' hsources hgiven]
  · rename_i hcomma
    -- without a comma there is one target, and so there is one source
    cases targets with
    | nil => exact absurd rfl hsome
    | cons t rest =>
      cases rest with
      | nil =>
        obtain ⟨e, rfl⟩ := List.length_eq_one_iff.mp (hmany.resolve_left (by simp))
        simp
      | cons t' rest =>
        rw [List.intercalate_cons_cons] at hcomma
        exact absurd (by simp) hcomma

/-- The line assigns to each of the names the one that a map gives for it.  There may be
blanks around every name. -/
def Rearranges {n : Nat} (names : Fin n → Text) (given : Fin n → Fin n) (line : Text) : Prop :=
  ∃ targets sources : Fin n → Text,
    line = written (List.ofFn targets) (List.ofFn sources) ∧
    (∀ i, Text.strip (targets i) = names i) ∧ ∀ i, Text.strip (sources i) = names (given i)

end Assignment

/-! ## Names as sources -/

namespace Expression

theorem nameCharacter_of_mem {x : Text} (h : isName x = true) {c : Char} (hc : c ∈ x) :
    (c.isAlphanum || c = '_') = true := by
  cases x with
  | nil => exact absurd hc (by simp)
  | cons d ds =>
    rw [isName, Bool.and_eq_true, List.all_eq_true] at h
    rcases List.mem_cons.mp hc with rfl | hmem
    · rw [Char.isAlphanum, Bool.or_eq_true, Bool.or_eq_true]
      exact (Bool.or_eq_true_iff.mp h.1).imp_left Or.inl
    · exact h.2 c hmem

/-- A name is evaluated to what it reads as. -/
theorem eval_name {x t : Text} (h : isName x = true) (ht : Text.strip t = x) (env : Environment)
    {budget : Nat} (hbudget : 0 < budget) : eval env budget t = .ok (env.read x) := by
  obtain ⟨budget, rfl⟩ := Nat.exists_eq_succ_of_ne_zero hbudget.ne'
  have hshape : shape x = .name x := shape_atom (.name x h)
  rw [eval, ht, hshape]

end Expression

/-! ## Running -/

theorem mapM_of_forall₂ {α β : Type} {f : α → Except Fault β} {l : List α} {bs : List β}
    (h : List.Forall₂ (fun a b => f a = .ok b) l bs) : l.mapM f = .ok bs := by
  induction h with
  | nil => rfl
  | cons hhead _ ih =>
    rw [List.mapM_cons, hhead, ih]
    rfl

theorem mapM_eq_error_of_mem {α β : Type} {f : α → Except Fault β} {l : List α} {a : α}
    (ha : a ∈ l) {e : Fault} (h : f a = .error e) :
    ∃ b ∈ l, ∃ g, f b = .error g ∧ l.mapM f = .error g := by
  induction l with
  | nil => exact absurd ha (by simp)
  | cons c l ih =>
    rw [List.mapM_cons]
    cases hc : f c with
    | error g => exact ⟨c, List.mem_cons_self, g, hc, rfl⟩
    | ok v =>
      have hmem : a ∈ l := by
        rcases List.mem_cons.mp ha with rfl | hmem
        · exact absurd (h.symm.trans hc) (by simp)
        · exact hmem
      obtain ⟨b, hb, g, hg, hl⟩ := ih hmem
      exact ⟨b, List.mem_cons_of_mem _ hb, g, hg, by rw [hl]; rfl⟩

namespace Run

theorem assign_written {targets sources : List Text} (hmany : 2 ≤ targets.length)
    (hgiven : sources ≠ []) (htargets : ∀ t ∈ targets, ',' ∉ t ∧ '=' ∉ t)
    (hsources : ∀ e ∈ sources, ',' ∉ e) (budget : Nat) (s : State) :
    assign budget (.ofLine (Assignment.written targets sources)) s =
      proceed s (fun values => .ok () { s with
          env := s.env.bind (targets.map Text.strip) values })
        (sources.mapM (Expression.eval s.env budget)) := by
  have hsome : targets ≠ [] := by
    rintro rfl
    exact absurd hmany (by simp)
  rw [Assignment.ofLine_written htargets hsources hsome hgiven (Or.inl hmany), assign_apply]

section

variable {n : Nat} {names : Fin n → Text} (hnames : ∀ i, Expression.isName (names i) = true)
include hnames

/-- What is a name between blanks holds none of the signs of an assignment. -/
theorem signs_not_mem {t : Text} {i : Fin n} (ht : Text.strip t = names i) :
    ',' ∉ t ∧ '=' ∉ t := by
  have hsign : ∀ c : Char, Text.isBlank c = false → (c.isAlphanum || c = '_') = false →
      c ∉ t := by
    intro c hblank hc
    refine Text.not_mem_of_not_mem_strip hblank fun hmem => ?_
    rw [ht] at hmem
    have hname := Expression.nameCharacter_of_mem (hnames i) hmem
    exact absurd hname (by simp [hc])
  exact ⟨hsign ',' (by decide) (by decide), hsign '=' (by decide) (by decide)⟩

theorem ofLine_names (hn : 0 < n) {given : Fin n → Fin n} {targets sources : Fin n → Text}
    (htargets : ∀ i, Text.strip (targets i) = names i)
    (hsources : ∀ i, Text.strip (sources i) = names (given i)) :
    Assignment.ofLine (Assignment.written (List.ofFn targets) (List.ofFn sources)) =
      ⟨List.ofFn names, List.ofFn sources⟩ := by
  have hplain : ∀ t ∈ List.ofFn targets, ',' ∉ t ∧ '=' ∉ t := by
    intro t ht
    obtain ⟨i, rfl⟩ := List.mem_ofFn.mp ht
    exact signs_not_mem hnames (htargets i)
  have hparts : ∀ e ∈ List.ofFn sources, ',' ∉ e := by
    intro e he
    obtain ⟨i, rfl⟩ := List.mem_ofFn.mp he
    exact (signs_not_mem hnames (hsources i)).1
  have hstrip : (List.ofFn targets).map Text.strip = List.ofFn names := by
    rw [List.map_ofFn]
    exact congrArg List.ofFn (funext htargets)
  have hmany : 2 ≤ (List.ofFn targets).length ∨ (List.ofFn sources).length = 1 := by
    rw [List.length_ofFn, List.length_ofFn]
    omega
  rw [Assignment.ofLine_written hplain hparts (by simpa using hn.ne') (by simpa using hn.ne')
    hmany, hstrip]

theorem mapM_names {given : Fin n → Fin n} {sources : Fin n → Text}
    (hsources : ∀ i, Text.strip (sources i) = names (given i)) (env : Environment) {budget : Nat}
    (hbudget : 0 < budget) :
    (List.ofFn sources).mapM (Expression.eval env budget) =
      .ok (List.ofFn fun i => env.read (names (given i))) := by
  have hread : (List.ofFn sources).map (fun e => env.read (Text.strip e)) =
      List.ofFn fun i => env.read (names (given i)) := by
    rw [List.map_ofFn]
    exact congrArg List.ofFn (funext fun i => congrArg env.read (hsources i))
  rw [← hread]
  refine mapM_of_forall₂ (List.forall₂_map_right_iff.mpr (List.forall₂_same.mpr ?_))
  intro e he
  obtain ⟨i, rfl⟩ := List.mem_ofFn.mp he
  have hname : Expression.isName (Text.strip (sources i)) = true := by
    rw [hsources i]
    exact hnames _
  exact Expression.eval_name hname rfl env hbudget

/-- A line that rearranges names binds each to what the name given for it read as. -/
theorem assign_rearranges (hn : 0 < n) {given : Fin n → Fin n} {line : Text}
    (h : Assignment.Rearranges names given line) {budget : Nat} (hbudget : 0 < budget)
    (s : State) :
    assign budget (.ofLine line) s = .ok () { s with
      env := s.env.bind (List.ofFn names) (List.ofFn fun i => s.env.read (names (given i))) } := by
  obtain ⟨targets, sources, rfl, htargets, hsources⟩ := h
  rw [ofLine_names hnames hn htargets hsources, assign_apply,
    mapM_names hnames hsources s.env hbudget]
  rfl

end

/-- Names that are different have what they are bound to at once. -/
theorem get?_bind_ofFn {n : Nat} {names : Fin n → Text} (hdistinct : Function.Injective names)
    (env : Environment) (values : Fin n → Value) (i : Fin n) :
    (env.bind (List.ofFn names) (List.ofFn values)).get? (names i) = some (values i) := by
  have hlast : ∀ q, i.val < q → (List.ofFn names)[q]? ≠ some (names i) := by
    intro q hq h
    obtain ⟨hlt, hsame⟩ := List.getElem?_eq_some_iff.mp h
    rw [List.getElem_ofFn] at hsame
    exact absurd (congrArg Fin.val (hdistinct hsame)) (by simp; omega)
  rw [Environment.get?_bind_last (by simp) hlast]
  simp

/-- Rearranged names have the values of those that were given for them, and the line that
rearranges them back restores every binding. -/
theorem assign_permutation {n : Nat} (hn : 0 < n) {names : Fin n → Text}
    (hdistinct : Function.Injective names) (hnames : ∀ i, Expression.isName (names i) = true)
    (σ : Equiv.Perm (Fin n)) {line back : Text} (hline : Assignment.Rearranges names σ line)
    (hback : Assignment.Rearranges names σ.symm back) {budget : Nat} (hbudget : 0 < budget)
    (s : State) (hbound : ∀ i, s.env.Binds (names i)) :
    ∃ env, assign budget (.ofLine line) s = .ok () { s with env := env } ∧
      (∀ i, env.get? (names i) = s.env.get? (names (σ i))) ∧
      (∀ x, (∀ i, x ≠ names i) → env.get? x = s.env.get? x) ∧
      assign budget (.ofLine back) { s with env := env } = .ok () s := by
  have hget : ∀ i, s.env.get? (names i) = some (s.env.read (names i)) := by
    intro i
    obtain ⟨v, hv⟩ := Option.isSome_iff_exists.mp (hbound i)
    rw [Environment.read, hv, Option.getD_some]
  have hnodup : (List.ofFn names).Nodup := List.nodup_ofFn.mpr hdistinct
  have hall : ∀ x ∈ List.ofFn names, s.env.Binds x := by
    intro x hx
    obtain ⟨i, rfl⟩ := List.mem_ofFn.mp hx
    exact hbound i
  refine ⟨_, assign_rearranges hnames hn hline hbudget s, ?_, ?_, ?_⟩
  · intro i
    rw [get?_bind_ofFn hdistinct, hget]
  · intro x hx
    refine Environment.get?_bind_of_not_mem (fun hmem => ?_) s.env _
    obtain ⟨i, hi⟩ := List.mem_ofFn.mp hmem
    exact hx i hi.symm
  · rw [assign_rearranges hnames hn hback hbudget]
    have hvalues : (List.ofFn fun i => (s.env.bind (List.ofFn names) (List.ofFn fun j =>
        s.env.read (names (σ j)))).read (names (σ.symm i))) =
        (List.ofFn names).map s.env.read := by
      rw [List.map_ofFn]
      refine congrArg List.ofFn (funext fun i => ?_)
      rw [Environment.read, get?_bind_ofFn hdistinct, Option.getD_some, Equiv.apply_symm_apply]
      rfl
    rw [hvalues, Environment.bind_bind hnodup hall, Environment.bind_read hall]

/-- An assignment to several names evaluates every source in the environment before it.
If all have values, the names are bound at once; if one faults, nothing is bound.  So names
that are rearranged exchange their values, and the line that rearranges them back restores
every binding. -/
theorem assign_simultaneous (budget : Nat) (s : State) :
    (∀ targets sources : List Text, 2 ≤ targets.length → sources ≠ [] →
      (∀ t ∈ targets, ',' ∉ t ∧ '=' ∉ t) → (∀ e ∈ sources, ',' ∉ e) →
      (∀ values, List.Forall₂ (fun e v => Expression.eval s.env budget e = .ok v) sources values →
        ∃ env, assign budget (.ofLine (Assignment.written targets sources)) s =
            .ok () { s with env := env } ∧
          Environment.BoundAtOnce (targets.map Text.strip) values s.env env) ∧
      ((∃ e ∈ sources, ∃ f, Expression.eval s.env budget e = .error f) →
        ∃ e ∈ sources, ∃ f, Expression.eval s.env budget e = .error f ∧
          assign budget (.ofLine (Assignment.written targets sources)) s = .error f s)) ∧
    ∀ (n : Nat) (names : Fin n → Text) (σ : Equiv.Perm (Fin n)) (line back : Text), 0 < n →
      0 < budget → Function.Injective names → (∀ i, Expression.isName (names i) = true) →
      (∀ i, s.env.Binds (names i)) → Assignment.Rearranges names σ line →
      Assignment.Rearranges names σ.symm back →
      ∃ env, assign budget (.ofLine line) s = .ok () { s with env := env } ∧
        (∀ i, env.get? (names i) = s.env.get? (names (σ i))) ∧
        (∀ x, (∀ i, x ≠ names i) → env.get? x = s.env.get? x) ∧
        assign budget (.ofLine back) { s with env := env } = .ok () s := by
  constructor
  · intro targets sources hmany hgiven htargets hsources
    constructor
    · intro values hvalues
      refine ⟨_, ?_, Environment.bind_boundAtOnce s.env _ values⟩
      rw [assign_written hmany hgiven htargets hsources, mapM_of_forall₂ hvalues]
      rfl
    · rintro ⟨e, he, f, hf⟩
      obtain ⟨e', he', g, hg, hmapM⟩ := mapM_eq_error_of_mem he hf
      refine ⟨e', he', g, hg, ?_⟩
      rw [assign_written hmany hgiven htargets hsources, hmapM]
      rfl
  · intro n names σ line back hn hbudget hdistinct hnames hbound hline hback
    exact assign_permutation hn hdistinct hnames σ hline hback hbudget s hbound

/-- Three names in alphabetical order. -/
def firstNames : Fin 3 → Text := fun i => ["a".toList, "b".toList, "c".toList].get i

/-- The state in which they are bound to the first three numbers. -/
def numbered : State :=
  { env := ⟨[("a".toList, .int 1), ("b".toList, .int 2), ("c".toList, .int 3)]⟩ }

theorem numbered_rearranged :
    (∃ env, assign nestingLimit (.ofLine "a, b, a = b, a".toList) numbered =
        .ok () { numbered with env := env } ∧
      env.get? "a".toList = some (.int 0) ∧ env.get? "b".toList = some (.int 1) ∧
      env.get? "c".toList = some (.int 3)) ∧
    ∃ env, assign nestingLimit (.ofLine "a,b,c = b, c, a".toList) numbered =
        .ok () { numbered with env := env } ∧
      env.get? "c".toList = some (.int 1) ∧
      assign nestingLimit (.ofLine "a, b, c = c, a, b".toList) { numbered with env := env } =
        .ok () numbered := by
  obtain ⟨hsources, hnames⟩ := assign_simultaneous nestingLimit numbered
  constructor
  · obtain ⟨env, hrun, hbound⟩ := (hsources ["a".toList, " b".toList, " a ".toList]
      [" b".toList, " a".toList] (by decide) (by decide) (by decide) (by decide)).1
      [.int 2, .int 1] (.cons rfl (.cons rfl .nil))
    have hafter : ∀ q, 2 < q → ["a".toList, "b".toList, "a".toList][q]? ≠ some "a".toList := by
      intro q hq h
      rw [List.getElem?_eq_none hq] at h
      exact absurd h (by simp)
    have hlater : ∀ q, 1 < q → ["a".toList, "b".toList, "a".toList][q]? ≠ some "b".toList := by
      intro q hq h
      obtain rfl | hq := Nat.eq_or_lt_of_le hq
      · exact absurd h (by decide)
      · rw [List.getElem?_eq_none hq] at h
        exact absurd h (by simp)
    exact ⟨env, hrun, hbound.last 2 _ rfl hafter, hbound.last 1 _ rfl hlater,
      hbound.others _ (by decide)⟩
  · have hcycle : Assignment.Rearranges firstNames (finRotate 3) "a,b,c = b, c, a".toList :=
      ⟨fun i => ["a".toList, "b".toList, "c ".toList].get i,
        fun i => [" b".toList, " c".toList, " a".toList].get i, by decide, by decide, by decide⟩
    have hback : Assignment.Rearranges firstNames (finRotate 3).symm "a, b, c = c, a, b".toList :=
      ⟨fun i => ["a".toList, " b".toList, " c ".toList].get i,
        fun i => [" c".toList, " a".toList, " b".toList].get i, by decide, by decide, by decide⟩
    have hdistinct : Function.Injective firstNames := by
      unfold Function.Injective
      decide
    obtain ⟨env, hrun, hget, -, hrestored⟩ := hnames 3 firstNames (finRotate 3) _ _ (by decide)
      (by decide) hdistinct (by decide) (by decide) hcycle hback
    exact ⟨env, hrun, hget 2, hrestored⟩

end Run

end LineScript
