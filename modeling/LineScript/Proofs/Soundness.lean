import LineScript.Program
import LineScript.Proofs.Contract
import LineScript.Proofs.Evaluation

set_option autoImplicit false

/-!
# Statements keep an environment sound

A statement binds names that its line holds to values that its sources have, so a
sound environment stays sound, and a statement fails by depth or not at all.

Proved: for every line without a line end, at every budget, the statement of the
line keeps the environment sound; if it faults, then by depth, and only if the
line holds as many operators as the budget has steps (`Statement.keeps_sound`).
-/

namespace LineScript

/-- An action that settles on a result and then moves on keeps what it moves on
with. -/
theorem Run.keeps_of_settles {α β : Type} {P : State → Prop} {allowed : Fault → Prop}
    {m : Run α} {result : State → Except Fault β} {value : β → α} {next : State → β → State}
    (hm : ∀ s, m s = proceed s (fun b => .ok (value b) (next s b)) (result s))
    (hresult : ∀ s, P s →
      Settles (fun b => P (next s b)) (allowed .nestingTooDeep) (result s)) :
    Keeps P allowed m := by
  apply keeps_of_proceed hm
  · intro s b hs hr
    have h := hresult s hs
    rwa [hr] at h
  · intro s f hs hr
    have h := hresult s hs
    rw [hr] at h
    rw [h.1]
    exact h.2

/-- The state has a sound environment. -/
def State.Sound (s : State) : Prop := s.env.Sound

section

variable {allowed : Fault → Prop}

theorem Run.assign_keeps_sound {budget : Nat} {a : Assignment}
    (htargets : ∀ x ∈ a.targets, IsTarget x ∧ '\n' ∉ x)
    (hdeep : (∃ e ∈ a.sources, budget ≤ Operator.count e) → allowed .nestingTooDeep) :
    Keeps State.Sound allowed (assign budget a) := by
  apply keeps_of_settles (assign_apply budget a)
  intro s hs
  exact (sources_sound hs budget a.sources).imp
    (fun values hvalues => Environment.Sound.bind hs htargets hvalues) hdeep

theorem Run.print_keeps_sound {budget : Nat} {argument : Option Text}
    (hdeep : (∃ e ∈ argument.toList, budget ≤ Operator.count e) → allowed .nestingTooDeep) :
    Keeps State.Sound allowed (print budget argument) := by
  cases argument with
  | none => exact keeps_pure ()
  | some argument =>
    apply keeps_of_settles (print_apply budget argument)
    intro s hs
    exact (entryOf_sound hs budget argument).imp (fun _ _ => hs)
      fun hb => hdeep ⟨argument, by simp, hb⟩

theorem Run.holds_keeps_sound {budget : Nat} {condition : Text}
    (hdeep : budget ≤ Operator.count condition → allowed .nestingTooDeep) :
    Keeps State.Sound allowed (holds budget condition) := by
  apply keeps_of_settles (holds_apply budget condition)
  intro s hs
  exact (Condition.eval_sound hs budget condition).imp (fun _ _ => hs) hdeep

/-- The targets of an assignment on a line can be bound. -/
theorem Statement.target_of_mem {line : Text} (hline : '\n' ∉ line) {a : Assignment}
    (hst : Statement.ofLine line = .assign a) {x : Text} (hx : x ∈ a.targets) :
    IsTarget x ∧ '\n' ∉ x := by
  have htarget := isTarget_of_ofLine hst hx
  exact ⟨htarget.1, fun hn => hline (htarget.2.mem hn)⟩

/-- The statement of a line keeps an environment sound, and fails by depth only. -/
theorem Statement.keeps_sound {line : Text} (hline : '\n' ∉ line) {budget : Nat}
    (hdeep : budget ≤ Operator.count line → allowed .nestingTooDeep) :
    (Statement.ofLine line).Keeps State.Sound allowed budget := by
  have hpiece : ∀ e ∈ (ofLine line).expressions, budget ≤ Operator.count e →
      allowed .nestingTooDeep := by
    intro e he hb
    have hcount := Operator.count_le_of_infix (infix_of_mem_expressions he)
    exact hdeep (by omega)
  cases hst : ofLine line with
  | assign a =>
    rw [hst] at hpiece
    apply Run.assign_keeps_sound
    · exact fun x hx => target_of_mem hline hst hx
    · exact fun ⟨e, he, hb⟩ => hpiece e he hb
  | print argument =>
    rw [hst] at hpiece
    exact Run.print_keeps_sound fun ⟨e, he, hb⟩ => hpiece e he hb
  | block kind condition =>
    rw [hst] at hpiece
    exact Run.holds_keeps_sound (hpiece condition List.mem_cons_self)
  | ignored => exact trivial

end

/-- The lines of a program hold no line end. -/
theorem Lines.not_mem_of_mem_ofText {code line : Text} (h : line ∈ Lines.ofText code) :
    '\n' ∉ line :=
  (Text.mem_splitOn code (List.mem_toArray.mp h)).2

theorem Lines.not_mem_strip {code line : Text} (h : line ∈ Lines.ofText code) :
    '\n' ∉ Text.strip line :=
  fun hn => not_mem_of_mem_ofText h ((Text.strip_infix line).mem hn)

/-- The statement of a program's line keeps an environment sound, and fails by depth
only. -/
theorem Lines.keeps_sound_of_mem {code line : Text} (h : line ∈ Lines.ofText code)
    {allowed : Fault → Prop} {budget : Nat}
    (hdeep : budget ≤ Operator.count line → allowed .nestingTooDeep) :
    (Statement.ofLine (Text.strip line)).Keeps State.Sound allowed budget := by
  apply Statement.keeps_sound (not_mem_strip h)
  intro hb
  exact hdeep (Nat.le_trans hb (Operator.count_le_of_infix (Text.strip_infix line)))

end LineScript
