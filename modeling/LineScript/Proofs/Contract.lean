import LineScript.Proofs.Tree

set_option autoImplicit false

/-!
# Contracts of trees

A contract that every statement of a tree keeps is kept by running the tree,
whatever the cap and however often its loops run.  Depth is the one thing that a
tree adds to its statements: a block that is entered uses up a part of the budget,
so either the contract allows the fault of depth, or the budget has to last for
the deepest block.

Proved: the run of a tree keeps what its statements keep (`Tree.run_keeps`), and
the statements of a tree are those of its lines (`Tree.all_ofLines`), so a range
inside the program keeps what its lines keep (`Run.range_keeps`).
-/

namespace LineScript

namespace Tree

/-! ## Statements of a tree -/

/-- Every statement of the tree has the property. -/
def All (q : Statement → Prop) : Tree → Prop
  | .done => True
  | .assign a rest => q (.assign a) ∧ rest.All q
  | .print argument rest => q (.print argument) ∧ rest.All q
  | .block kind condition body rest => q (.block kind condition) ∧ body.All q ∧ rest.All q
  | .ignored rest => q .ignored ∧ rest.All q

/-- How deep the blocks of the tree nest. -/
def depth : Tree → Nat
  | .done => 0
  | .assign _ rest => rest.depth
  | .print _ rest => rest.depth
  | .block _ _ body rest => max (body.depth + 1) rest.depth
  | .ignored rest => rest.depth

/-- A property of all statements gives way to a weaker one. -/
theorem All.imp {q r : Statement → Prop} (himp : ∀ st, q st → r st) {t : Tree} (h : t.All q) :
    t.All r := by
  induction t with
  | done => exact trivial
  | assign a rest ih => exact ⟨himp _ h.1, ih h.2⟩
  | print argument rest ih => exact ⟨himp _ h.1, ih h.2⟩
  | ignored rest ih => exact ⟨himp _ h.1, ih h.2⟩
  | block kind condition body rest ihbody ihrest =>
    exact ⟨himp _ h.1, ihbody h.2.1, ihrest h.2.2⟩

/-- The statements of a tree are those of its lines that count. -/
theorem all_ofLines {q : Statement → Prop} (level : Int) (lines : List Text)
    (h : ∀ line ∈ lines, Line.isFiller line = false → q (Statement.ofLine (Text.strip line))) :
    (ofLines level lines).All q := by
  induction level, lines using ofLines_induction with
  | nil level =>
    rw [ofLines]
    exact trivial
  | filler level line rest hfiller ih =>
    rw [ofLines_of_filler rest hfiller]
    exact ih (List.forall_mem_cons.mp h).2
  | shallower level line rest hfiller hlt =>
    rw [ofLines_of_shallower rest hfiller hlt]
    exact trivial
  | deeper level line rest hfiller hgt ih =>
    rw [ofLines_of_deeper rest hfiller hgt]
    exact ih (List.forall_mem_cons.mp h).2
  | statement level line rest hfiller hlevel ih ihbody ihafter =>
    rw [List.forall_mem_cons] at h
    have hbody : (ofBlock (Lines.block (Line.indent line) rest)).All q := by
      rw [ofBlock]
      split
      · exact trivial
      · exact ihbody _ fun l hl => h.2 l ((List.takeWhile_sublist _).subset hl)
    have hafter := ihafter fun l hl => h.2 l ((List.dropWhile_sublist _).subset hl)
    have hline := h.1 hfiller
    rw [ofLines_of_level rest hfiller hlevel]
    cases hst : Statement.ofLine (Text.strip line) with
    | assign a => exact ⟨hst ▸ hline, ih h.2⟩
    | print argument => exact ⟨hst ▸ hline, ih h.2⟩
    | ignored => exact ⟨hst ▸ hline, ih h.2⟩
    | block kind condition => exact ⟨hst ▸ hline, hbody, hafter⟩

end Tree

/-! ## Contracts -/

variable {P : State → Prop} {allowed : Fault → Prop}

/-- What a statement evaluates or does at a budget keeps the contract. -/
def Statement.Keeps (P : State → Prop) (allowed : Fault → Prop) (budget : Nat) : Statement → Prop
  | .assign a => Run.Keeps P allowed (Run.assign budget a)
  | .print argument => Run.Keeps P allowed (Run.print budget argument)
  | .block _ condition => Run.Keeps P allowed (Run.holds budget condition)
  | .ignored => True

/-- A statement keeps what is kept by binding the values that its sources have and by adding
the entry that it prints.  A test changes nothing. -/
theorem Statement.keeps_of_results {st : Statement} {budget : Nat}
    (hassign : ∀ a, st = .assign a → ∀ s values, P s →
      a.sources.mapM (Expression.eval s.env budget) = .ok values →
      P { s with env := s.env.bind a.targets values })
    (hprint : ∀ argument, st = .print (some argument) → ∀ s entry, P s →
      Run.entryOf s.env budget argument = .ok entry →
      P { s with output := s.output.push entry }) :
    st.Keeps P (fun _ => True) budget := by
  cases st with
  | assign a =>
    exact Run.keeps_of_proceed (Run.assign_apply budget a) (hassign a rfl) fun _ _ _ _ => trivial
  | print argument =>
    cases argument with
    | none => exact Run.keeps_pure ()
    | some argument =>
      exact Run.keeps_of_proceed (Run.print_apply budget argument) (hprint argument rfl)
        fun _ _ _ _ => trivial
  | block kind condition =>
    exact Run.keeps_of_proceed (Run.holds_apply budget condition) (fun _ _ hs _ => hs)
      fun _ _ _ _ => trivial
  | ignored => exact trivial

theorem Statement.Keeps.simple {budget : Nat} {st : Statement} {m : Run Unit}
    (h : st.Keeps P allowed budget) (hm : st.simple? budget = some m) :
    Run.Keeps P allowed m := by
  cases st with
  | assign a => exact Option.some.inj hm ▸ h
  | print argument => exact Option.some.inj hm ▸ h
  | ignored => exact Option.some.inj hm ▸ Run.keeps_pure ()
  | block kind condition => exact absurd hm (by simp [Statement.simple?])

namespace Tree

theorem nested_keeps {budget : Nat} {body : Nat → Run Unit}
    (hdeep : budget < Run.blockCost → allowed .nestingTooDeep)
    (hbody : Run.blockCost ≤ budget → Run.Keeps P allowed (body (budget - Run.blockCost))) :
    Run.Keeps P allowed (nested budget body) := by
  unfold nested
  split
  · rename_i hlt
    exact Run.keeps_throw (hdeep hlt)
  · rename_i hge
    exact hbody (Nat.not_lt.mp hge)

theorem perform_keeps (cap : Int) {test : Run Bool} {body : Run Unit}
    (htest : Run.Keeps P allowed test) (hbody : Run.Keeps P allowed body) (kind : BlockKind) :
    Run.Keeps P allowed (perform cap test body kind) := by
  cases kind with
  | once =>
    apply htest.bind
    intro b
    cases b with
    | false => exact Run.keeps_pure ()
    | true => exact hbody
  | repeated => exact htest.whileUpTo hbody cap.toNat

/-- A tree keeps what its statements keep, if depth is allowed to end it or the
budget lasts for its deepest block. -/
theorem run_keeps (cap : Int) (least : Nat) (t : Tree) (budget : Nat)
    (h : t.All fun st => ∀ b ≤ budget, allowed .nestingTooDeep ∨ least ≤ b →
      st.Keeps P allowed b)
    (hb : allowed .nestingTooDeep ∨ least + Run.blockCost * t.depth ≤ budget) :
    Run.Keeps P allowed (t.run cap budget) := by
  have hhere : allowed .nestingTooDeep ∨ least ≤ budget := by
    rcases hb with ha | hle
    · exact Or.inl ha
    · exact Or.inr (by omega)
  induction t generalizing budget with
  | done => exact Run.keeps_pure ()
  | assign a rest ih =>
    exact (h.1 budget (Nat.le_refl _) hhere).bind fun _ => ih budget h.2 hb hhere
  | print argument rest ih =>
    exact (h.1 budget (Nat.le_refl _) hhere).bind fun _ => ih budget h.2 hb hhere
  | ignored rest ih => exact ih budget h.2 hb hhere
  | block kind condition body rest ihbody ihrest =>
    rw [depth] at hb
    have hrest : allowed .nestingTooDeep ∨ least + Run.blockCost * rest.depth ≤ budget := by
      rcases hb with ha | hle
      · exact Or.inl ha
      · right
        have := Nat.mul_le_mul_left Run.blockCost (Nat.le_max_right (body.depth + 1) rest.depth)
        omega
    have hbody : allowed .nestingTooDeep ∨
        least + Run.blockCost * body.depth + Run.blockCost ≤ budget := by
      rcases hb with ha | hle
      · exact Or.inl ha
      · right
        have := Nat.mul_le_mul_left Run.blockCost (Nat.le_max_left (body.depth + 1) rest.depth)
        rw [Nat.mul_succ] at this
        omega
    have hnested : Run.Keeps P allowed (nested budget fun left => body.run cap left) := by
      apply nested_keeps
      · intro hlt
        exact hbody.resolve_right (by omega)
      · intro hge
        apply ihbody
        · exact h.2.1.imp fun st hst b hb => hst b (by omega)
        · exact hbody.imp_right (by omega)
        · exact hbody.imp_right (by omega)
    exact (perform_keeps cap (h.1 budget (Nat.le_refl _) hhere) hnested kind).bind
      fun _ => ihrest budget h.2.2 hrest hhere

end Tree

/-- A range inside the program keeps what its own lines keep, if depth is allowed to end
it or the budget lasts for its deepest block. -/
theorem Run.range_keeps (cap : Int) (lines : Lines) (budget i stop : Nat) (level : Int)
    (hs : stop ≤ lines.size) (least : Nat)
    (h : ∀ line ∈ lines.slice i stop, Line.isFiller line = false → ∀ b ≤ budget,
      allowed .nestingTooDeep ∨ least ≤ b → (Statement.ofLine (Text.strip line)).Keeps P allowed b)
    (hb : allowed .nestingTooDeep ∨
      least + blockCost * (Tree.ofLines level (lines.slice i stop)).depth ≤ budget) :
    Keeps P allowed (range cap lines budget i stop level) := by
  have htree : Keeps P allowed ((Tree.ofLines level (lines.slice i stop)).run cap budget) := by
    apply Tree.run_keeps cap least _ _ _ hb
    exact Tree.all_ofLines _ _ h
  intro s hP
  have hend := htree s hP
  rwa [← range_eq_tree cap lines budget i stop level hs, ending_discard] at hend

namespace Run

section

variable {lines : Lines} (hdeep : allowed .nestingTooDeep)
  (hlines : ∀ line ∈ lines, ∀ b, (Statement.ofLine (Text.strip line)).Keeps P allowed b)
include hdeep hlines

/-- A block inside the program keeps what its lines keep. -/
theorem body_keeps (cap : Int) (budget : Nat) {start stop : Nat} (hle : start ≤ stop)
    (hs : stop ≤ lines.size) : Keeps P allowed (body cap lines budget start stop) := by
  rw [body, enter, Lines.bodyIndent_eq lines hle hs]
  cases Lines.level? (lines.slice start stop) with
  | none => exact keeps_pure ()
  | some level =>
    apply Keeps.discard
    exact range_keeps cap lines budget start stop level hs 0 (fun line hline _ b _ _ =>
      hlines line (Lines.mem_of_mem_slice hline) b) (Or.inl hdeep)

/-- A statement inside the program keeps what its own line and the lines of its block
keep. -/
theorem statement_keeps (cap : Int) (budget : Nat) {i stop : Nat} (hi : i < stop)
    (hs : stop ≤ lines.size) {line : Text}
    (hline : ∀ b, (Statement.ofLine line).Keeps P allowed b) (indent : Int) :
    Keeps P allowed (statement cap lines budget i stop line indent) := by
  have hhere := hline budget
  rcases Statement.simple_or_block budget (Statement.ofLine line) with
    ⟨m, hm⟩ | ⟨kind, condition, hst⟩
  · rw [statement_of_simple hm]
    exact (hhere.simple hm).bind fun _ => keeps_pure _
  · rw [hst] at hhere
    obtain ⟨next, hstop, hlt, hle, -, -⟩ := Lines.exists_blockStop lines indent hi hs
    rw [statement_of_block hst hstop, block_eq]
    have hbody : Keeps P allowed
        (Tree.nested budget fun left => body cap lines left ((i : Int) + 1) next) := by
      apply Tree.nested_keeps fun _ => hdeep
      intro _
      exact body_keeps hdeep hlines cap _ hlt (by omega)
    exact (Tree.perform_keeps cap hhere hbody kind).bind fun _ => keeps_pure _

end

end Run

end LineScript
