import LineScript.Run

set_option autoImplicit false

/-!
# How actions end

An action ends in a state, with a fault or without one (`Run.ending`).  A contract
of an action names a property of the state that the action keeps, and the faults
that it may end with (`Run.Keeps`).  The property holds at the end of a faulty
action too.

Proved: what the simple actions do to a state, in one equation each
(`assign_apply`, `print_apply`, `holds_apply`), and that they change nothing if they
fault (`state_of_simple_error`); how a loop ends, with its last test
(`whileUpTo_last`) or in a test or a run that faults (`whileUpTo_error`); and that
contracts are kept by sequences and by loops of any length (`Keeps.bind`,
`Keeps.whileUpTo`).
-/

namespace LineScript

/-- What a statement does that opens no block. -/
def Statement.simple? (budget : Nat) : Statement → Option (Run Unit)
  | .assign a => some (Run.assign budget a)
  | .print argument => some (Run.print budget argument)
  | .ignored => some (pure ())
  | .block _ _ => none

theorem Statement.simple_or_block (budget : Nat) (st : Statement) :
    (∃ m, st.simple? budget = some m) ∨ ∃ kind condition, st = .block kind condition := by
  cases st with
  | assign a => exact Or.inl ⟨_, rfl⟩
  | print argument => exact Or.inl ⟨_, rfl⟩
  | ignored => exact Or.inl ⟨_, rfl⟩
  | block kind condition => exact Or.inr ⟨kind, condition, rfl⟩

/-! ## Results in several steps -/

theorem exists_of_bind_eq_ok {α β : Type} {m : Except Fault α} {f : α → Except Fault β} {b : β}
    (h : m >>= f = .ok b) : ∃ a, m = .ok a ∧ f a = .ok b := by
  cases m with
  | error e => exact absurd h (by simp [bind, Except.bind])
  | ok a => exact ⟨a, rfl, h⟩

theorem exists_of_mapM_cons_eq_ok {α β : Type} {f : α → Except Fault β} {a : α} {l : List α}
    {bs : List β} (h : (a :: l).mapM f = .ok bs) :
    ∃ b rest, f a = .ok b ∧ l.mapM f = .ok rest ∧ bs = b :: rest := by
  rw [List.mapM_cons] at h
  obtain ⟨b, hb, h⟩ := exists_of_bind_eq_ok h
  obtain ⟨rest, hrest, h⟩ := exists_of_bind_eq_ok h
  exact ⟨b, rest, hb, hrest, (Except.ok.inj h).symm⟩

namespace Run

variable {α β : Type}

/-! ## Endings -/

/-- The state that an action leaves, and the fault that ended it, if one did. -/
def ending (m : Run α) (s : State) : State × Option Fault :=
  match m s with
  | .ok _ t => (t, none)
  | .error f t => (t, some f)

theorem ending_of_ok {m : Run α} {s t : State} {a : α} (h : m s = .ok a t) :
    ending m s = (t, none) := by
  rw [ending, h]

theorem ending_of_error {m : Run α} {s t : State} {f : Fault} (h : m s = .error f t) :
    ending m s = (t, some f) := by
  rw [ending, h]

theorem ok_of_ending {m : Run Unit} {s t : State} (h : ending m s = (t, none)) :
    m s = .ok () t := by
  cases hm : m s with
  | ok a u =>
    rw [ending_of_ok hm] at h
    rw [(Prod.mk.inj h).1]
  | error f u =>
    rw [ending_of_error hm] at h
    exact absurd (Prod.mk.inj h).2 (by simp)

theorem ending_discard (m : Run α) (s : State) : ending (discard m) s = ending m s := by
  simp only [ending, discard, Functor.mapConst, EStateM.map, Function.comp]
  cases m s with
  | ok a t => rfl
  | error f t => rfl

theorem discard_bind (m : Run α) (f : α → Run β) :
    discard (m >>= f) = m >>= fun a => discard (f a) := by
  funext s
  simp only [discard, Functor.mapConst, EStateM.map, bind, EStateM.bind, Function.comp]
  cases m s with
  | ok a t => rfl
  | error f t => rfl

/-! ## Simple actions -/

theorem bind_apply (m : Run α) (f : α → Run β) (s : State) :
    (m >>= f) s = match m s with
      | .ok a t => f a t
      | .error e t => .error e t := by
  simp only [bind, EStateM.bind]
  cases m s with
  | ok a t => rfl
  | error e t => rfl

/-- Go on from the state in which an action has ended, unless a fault ended it. -/
def resume (next : State → State × Option Fault) : State × Option Fault → State × Option Fault
  | (t, none) => next t
  | (t, some f) => (t, some f)

theorem ending_bind_of_ok {m : Run α} {f : α → Run β} {s t : State} {a : α}
    (h : m s = .ok a t) : ending (m >>= f) s = ending (f a) t := by
  rw [ending, ending, bind_apply, h]

theorem ending_bind_of_error {m : Run α} {f : α → Run β} {s t : State} {e : Fault}
    (h : m s = .error e t) : ending (m >>= f) s = (t, some e) := by
  rw [ending, bind_apply, h]

/-- A sequence ends as its first part does, if that faults, and else as its second part
does from there. -/
theorem ending_seq (m : Run Unit) (k : Run α) (s : State) :
    ending (do m; k) s = resume (ending k) (ending m s) := by
  cases h : m s with
  | ok a t => rw [ending_bind_of_ok h, ending_of_ok h, resume]
  | error f t => rw [ending_bind_of_error h, ending_of_error h, resume]

theorem resume_of_fault {e : State × Option Fault} {f : Fault} (h : e.2 = some f)
    (next : State → State × Option Fault) : resume next e = e := by
  obtain ⟨t, g⟩ := e
  obtain rfl : g = some f := h
  rfl

theorem get_apply (s : State) : (get : Run State) s = .ok s s := rfl

theorem eq_of_bind_return {m : Run α} {b c : β} {s t : State}
    (h : (do let _ ← m; return b) s = .ok c t) : c = b := by
  rw [bind_apply] at h
  cases hm : m s with
  | ok a u =>
    rw [hm] at h
    exact (EStateM.Result.ok.inj h).1.symm
  | error e u =>
    rw [hm] at h
    exact absurd h (by simp)

theorem error_of_bind_return {m : Run α} {g : α → β} {s t : State} {f : Fault}
    (h : (do let a ← m; return g a) s = .error f t) : m s = .error f t := by
  rw [bind_apply] at h
  cases hm : m s with
  | ok a u =>
    rw [hm] at h
    exact absurd h (by simp [pure, EStateM.pure])
  | error e u =>
    rw [hm] at h
    obtain ⟨rfl, rfl⟩ := EStateM.Result.error.inj h
    rfl

/-- Go on with a result, or end with its fault in the state as it is. -/
def proceed (s : State) (go : β → EStateM.Result Fault State α) :
    Except Fault β → EStateM.Result Fault State α
  | .ok b => go b
  | .error f => .error f s

theorem state_of_proceed_error {s t : State} {f : Fault} {value : β → α} {next : β → State}
    {result : Except Fault β}
    (h : proceed s (fun b => .ok (value b) (next b)) result = .error f t) : t = s := by
  cases result with
  | ok b => exact absurd h (by simp [proceed])
  | error g => exact (EStateM.Result.error.inj h).2.symm

/-- An action that proceeds ends with its result, or changes nothing. -/
theorem ending_of_proceed {m : Run α} {s : State} {value : β → α} {next : β → State}
    {result : Except Fault β}
    (h : m s = proceed s (fun b => .ok (value b) (next b)) result) :
    (∃ b, result = .ok b ∧ ending m s = (next b, none)) ∨
      ∃ f, result = .error f ∧ ending m s = (s, some f) := by
  cases result with
  | ok b => exact Or.inl ⟨b, rfl, ending_of_ok h⟩
  | error f => exact Or.inr ⟨f, rfl, ending_of_error h⟩

/-- An assignment binds the values of its sources, or changes nothing. -/
theorem assign_apply (budget : Nat) (a : Assignment) (s : State) :
    assign budget a s =
      proceed s (fun values => .ok () { s with env := s.env.bind a.targets values })
        (a.sources.mapM (Expression.eval s.env budget)) := by
  rw [assign, bind_apply, get_apply]
  simp only
  cases a.sources.mapM (Expression.eval s.env budget) with
  | ok values => rfl
  | error f => rfl

/-- Testing a condition leaves the state as it is. -/
theorem holds_apply (budget : Nat) (condition : Text) (s : State) :
    holds budget condition s =
      proceed s (fun b => .ok b s) (Condition.eval s.env budget condition) := by
  rw [holds, bind_apply, get_apply]
  simp only
  cases Condition.eval s.env budget condition with
  | ok b => rfl
  | error f => rfl

theorem state_of_holds (budget : Nat) (condition : Text) (s : State) (b : Bool) (t : State)
    (h : holds budget condition s = .ok b t) : t = s := by
  rw [holds_apply] at h
  cases hc : Condition.eval s.env budget condition with
  | ok v =>
    rw [hc] at h
    exact (EStateM.Result.ok.inj h).2.symm
  | error f =>
    rw [hc] at h
    exact absurd h (by simp [proceed])

/-- The entry that printing an argument adds to the output. -/
def entryOf (env : Environment) (budget : Nat) (argument : Text) : Except Fault Text :=
  if Text.strip argument = [] then .ok []
  else Expression.eval env budget (Text.strip argument) >>= Value.written

/-- Printing adds one entry to the output, or changes nothing. -/
theorem print_apply (budget : Nat) (argument : Text) (s : State) :
    print budget (some argument) s =
      proceed s (fun entry => .ok () { s with output := s.output.push entry })
        (entryOf s.env budget argument) := by
  simp only [print, entryOf, evaluate]
  split
  · rfl
  · simp only [bind_apply, get_apply]
    cases Expression.eval s.env budget (Text.strip argument) with
    | error f => rfl
    | ok v =>
      simp only [ofExcept, pure, EStateM.pure, bind, Except.bind]
      cases v.written with
      | error f => rfl
      | ok entry => rfl

/-! Simple actions that fault change nothing. -/

theorem state_of_assign_error {budget : Nat} {a : Assignment} {s t : State} {f : Fault}
    (h : assign budget a s = .error f t) : t = s := by
  rw [assign_apply] at h
  exact state_of_proceed_error h

theorem state_of_print_error {budget : Nat} {argument : Option Text} {s t : State} {f : Fault}
    (h : print budget argument s = .error f t) : t = s := by
  cases argument with
  | none => exact absurd h (by simp [print, pure, EStateM.pure])
  | some argument =>
    rw [print_apply] at h
    exact state_of_proceed_error h

theorem state_of_simple_error {budget : Nat} {st : Statement} {m : Run Unit} {s t : State}
    {f : Fault} (hst : st.simple? budget = some m) (h : m s = .error f t) : t = s := by
  cases st with
  | assign a =>
    obtain rfl := Option.some.inj hst
    exact state_of_assign_error h
  | print argument =>
    obtain rfl := Option.some.inj hst
    exact state_of_print_error h
  | ignored =>
    obtain rfl := Option.some.inj hst
    exact absurd h (by simp [pure, EStateM.pure])
  | block kind condition => exact absurd hst (by simp [Statement.simple?])

theorem state_of_holds_error {budget : Nat} {condition : Text} {s t : State} {f : Fault}
    (h : holds budget condition s = .error f t) : t = s := by
  rw [holds_apply] at h
  exact state_of_proceed_error h

/-! ## Statements -/

section

variable {cap : LoopCap} {lines : Lines} {budget : Nat} {i stop indent : Int} {line : Text}

/-- A simple statement is done, and the next line is next. -/
theorem statement_of_simple {m : Run Unit}
    (h : (Statement.ofLine line).simple? budget = some m) :
    statement cap lines budget i stop line indent = (do m; return i + 1) := by
  rw [statement]
  cases hst : Statement.ofLine line with
  | assign a =>
    rw [hst] at h
    rw [← Option.some.inj h]
  | print argument =>
    rw [hst] at h
    rw [← Option.some.inj h]
  | ignored =>
    rw [hst] at h
    rw [← Option.some.inj h, pure_bind]
  | block kind condition =>
    rw [hst] at h
    exact absurd h (by simp [Statement.simple?])

/-- A block is run, and the line after it is next. -/
theorem statement_of_block {kind : BlockKind} {condition : Text} {next : Int}
    (h : Statement.ofLine line = .block kind condition)
    (hstop : lines.blockStop i indent stop = .ok next) :
    statement cap lines budget i stop line indent = (do
      block cap budget kind condition fun left => body cap lines left (i + 1) next
      return next) := by
  rw [statement, h]
  simp only [hstop, ofExcept, pure_bind]

theorem statement_of_blockStop_error {kind : BlockKind} {condition : Text} {f : Fault}
    (h : Statement.ofLine line = .block kind condition)
    (hstop : lines.blockStop i indent stop = .error f) (s : State) :
    statement cap lines budget i stop line indent s = .error f s := by
  rw [statement, h]
  simp only [hstop, ofExcept]
  rfl

/-- A statement moves the cursor on, and not past the end of its range. -/
theorem statement_bounds {j : Int} {s t : State}
    (h : statement cap lines budget i stop line indent s = .ok j t) (hi : i < stop) :
    i < j ∧ j ≤ stop := by
  rcases Statement.simple_or_block budget (Statement.ofLine line) with
    ⟨m, hm⟩ | ⟨kind, condition, hst⟩
  · rw [statement_of_simple hm] at h
    obtain rfl := eq_of_bind_return h
    omega
  · cases hstop : lines.blockStop i indent stop with
    | error f =>
      rw [statement_of_blockStop_error hst hstop] at h
      exact absurd h (by simp)
    | ok next =>
      rw [statement_of_block hst hstop] at h
      obtain rfl := eq_of_bind_return h
      exact Lines.blockStop_bounds hstop hi

end

/-! ## Loops -/

theorem whileUpTo_succ_apply (test : Run Bool) (body : Run Unit) (n : Nat) (s : State) :
    whileUpTo test body (n + 1) s = match test s with
      | .error f t => .error f t
      | .ok false t => .ok () t
      | .ok true t => match body t with
        | .error f u => .error f u
        | .ok _ u => whileUpTo test body n u := by
  rw [whileUpTo, bind_apply]
  cases test s with
  | error f t => rfl
  | ok b t =>
    cases b with
    | false => rfl
    | true =>
      simp only [if_true, bind_apply]
      cases body t with
      | error f u => rfl
      | ok a u => rfl

section

variable {test : Run Bool} {body : Run Unit}

theorem whileUpTo_of_false {s t : State} (ht : test s = .ok false t) (n : Nat) :
    whileUpTo test body (n + 1) s = .ok () t := by
  rw [whileUpTo_succ_apply, ht]

theorem whileUpTo_of_true {s t u : State} (ht : test s = .ok true t) (hb : body t = .ok () u)
    (n : Nat) : whileUpTo test body (n + 1) s = whileUpTo test body n u := by
  rw [whileUpTo_succ_apply, ht]
  simp only [hb]

variable (htest : ∀ s b t, test s = .ok b t → t = s)
include htest

/-- A loop that ends has a first test, which ends it or starts its first run. -/
theorem whileUpTo_first {n : Nat} {s u : State} (h : whileUpTo test body (n + 1) s = .ok () u) :
    test s = .ok false s ∧ u = s ∨
      ∃ t, test s = .ok true s ∧ body s = .ok () t ∧ whileUpTo test body n t = .ok () u := by
  rw [whileUpTo_succ_apply] at h
  split at h
  · exact absurd h (by simp)
  · rename_i t ht
    cases htest s false t ht
    exact Or.inl ⟨ht, (EStateM.Result.ok.inj h).2.symm⟩
  · rename_i t ht
    cases htest s true t ht
    split at h
    · exact absurd h (by simp)
    · rename_i v hv
      exact Or.inr ⟨v, ht, hv, h⟩

/-- A loop that ends has a last test, which ends it or starts its last run. -/
theorem whileUpTo_last {n : Nat} {s u : State} (h : whileUpTo test body (n + 1) s = .ok () u) :
    ∃ t, whileUpTo test body n s = .ok () t ∧
      (u = t ∨ test t = .ok true t ∧ body t = .ok () u) := by
  induction n generalizing s with
  | zero =>
    refine ⟨s, rfl, ?_⟩
    rcases whileUpTo_first htest h with ⟨-, rfl⟩ | ⟨t, ht, hb, hrest⟩
    · exact Or.inl rfl
    · rw [← (EStateM.Result.ok.inj hrest).2]
      exact Or.inr ⟨ht, hb⟩
  | succ n ih =>
    rcases whileUpTo_first htest h with ⟨ht, rfl⟩ | ⟨t, ht, hb, hrest⟩
    · exact ⟨u, whileUpTo_of_false ht n, Or.inl rfl⟩
    · obtain ⟨v, hv, hlast⟩ := ih hrest
      refine ⟨v, ?_, hlast⟩
      rw [whileUpTo_of_true ht hb, hv]

/-- A loop that faults does so in a test or in a body run, after runs that went
well. -/
theorem whileUpTo_error {n : Nat} {s u : State} {f : Fault}
    (h : whileUpTo test body n s = .error f u) :
    ∃ done t, done < n ∧ whileUpTo test body done s = .ok () t ∧
      (test t = .error f u ∨ test t = .ok true t ∧ body t = .error f u) := by
  induction n generalizing s with
  | zero => exact absurd h (by simp [whileUpTo, pure, EStateM.pure])
  | succ n ih =>
    rw [whileUpTo_succ_apply] at h
    split at h
    · rename_i g t ht
      obtain ⟨rfl, rfl⟩ := EStateM.Result.error.inj h
      exact ⟨0, s, Nat.succ_pos n, rfl, Or.inl ht⟩
    · exact absurd h (by simp)
    · rename_i t ht
      cases htest s true t ht
      split at h
      · rename_i g v hv
        exact ⟨0, s, Nat.succ_pos n, rfl, Or.inr ⟨ht, hv.trans h⟩⟩
      · rename_i v hv
        obtain ⟨done, w, hlt, hw, hlast⟩ := ih h
        refine ⟨done + 1, w, Nat.succ_lt_succ hlt, ?_, hlast⟩
        rw [whileUpTo_of_true ht hv, hw]

end

/-! ## Contracts -/

/-- Started in a state with the property, the action ends in one, and it faults
only as allowed. -/
def Keeps (P : State → Prop) (allowed : Fault → Prop) (m : Run α) : Prop :=
  ∀ s, P s → P (ending m s).1 ∧ ∀ f, (ending m s).2 = some f → allowed f

variable {P : State → Prop} {allowed : Fault → Prop}

theorem Keeps.of_ok {m : Run α} {s t : State} {a : α} (h : Keeps P allowed m) (hs : P s)
    (hm : m s = .ok a t) : P t := by
  have := (h s hs).1
  rwa [ending_of_ok hm] at this

theorem Keeps.of_error {m : Run α} {s t : State} {f : Fault} (h : Keeps P allowed m)
    (hs : P s) (hm : m s = .error f t) : P t ∧ allowed f := by
  have := h s hs
  rw [ending_of_error hm] at this
  exact ⟨this.1, this.2 f rfl⟩

theorem keeps_pure (a : α) : Keeps P allowed (pure a : Run α) :=
  fun _ hs => ⟨hs, fun _ hf => absurd hf (by simp [ending, pure, EStateM.pure])⟩

theorem keeps_throw {f : Fault} (h : allowed f) : Keeps P allowed (throw f : Run α) :=
  fun _ hs => ⟨hs, fun _ hg => Option.some.inj hg ▸ h⟩

/-- An action that moves on with a result, or else changes nothing, keeps what it moves
on with. -/
theorem keeps_of_proceed {m : Run α} {result : State → Except Fault β} {value : β → α}
    {next : State → β → State}
    (hm : ∀ s, m s = proceed s (fun b => .ok (value b) (next s b)) (result s))
    (hnext : ∀ s b, P s → result s = .ok b → P (next s b))
    (hfault : ∀ s f, P s → result s = .error f → allowed f) : Keeps P allowed m := by
  intro s hs
  rcases ending_of_proceed (hm s) with ⟨b, hb, hend⟩ | ⟨f, hf, hend⟩
  · rw [hend]
    exact ⟨hnext s b hs hb, fun g hg => absurd hg (by simp)⟩
  · rw [hend]
    exact ⟨hs, fun g hg => Option.some.inj hg ▸ hfault s f hs hf⟩

/-- A sequence keeps what its parts keep. -/
theorem Keeps.bind {m : Run α} {f : α → Run β} (hm : Keeps P allowed m)
    (hf : ∀ a, Keeps P allowed (f a)) : Keeps P allowed (m >>= f) := by
  intro s hs
  cases h : m s with
  | ok a t =>
    rw [ending_bind_of_ok h]
    exact hf a t (hm.of_ok hs h)
  | error e t =>
    have ht := hm.of_error hs h
    rw [ending_bind_of_error h]
    exact ⟨ht.1, fun g hg => Option.some.inj hg ▸ ht.2⟩

theorem Keeps.discard {m : Run α} (h : Keeps P allowed m) : Keeps P allowed (discard m) := by
  intro s hs
  rw [ending_discard]
  exact h s hs

/-- A loop keeps what its test and its body keep, however often it runs. -/
theorem Keeps.whileUpTo {test : Run Bool} {body : Run Unit} (htest : Keeps P allowed test)
    (hbody : Keeps P allowed body) (n : Nat) : Keeps P allowed (whileUpTo test body n) := by
  induction n with
  | zero => exact keeps_pure ()
  | succ n ih =>
    apply htest.bind
    intro b
    cases b with
    | false => exact keeps_pure ()
    | true => exact hbody.bind fun _ => ih

end Run

end LineScript
