import LineScript.Proofs.Nesting
import LineScript.Proofs.Reach
import LineScript.Proofs.Soundness

set_option autoImplicit false

/-!
# How programs run and end

What a program binds stays sound at every point of its run, so no number, no
position and no division can stop it: a program ends with its last line or by
depth.

Proved: a program ends without a fault or with the fault of depth, and with none if
no line holds more than 300 operators and none lies in more than 100 blocks
(`Outcome.fault_only_by_depth`); the environment is sound in every state that a run
reaches and in the one that it leaves, and evaluation in it has a sound value
(`environment_sound`).
-/

namespace LineScript

/-! ## Faults -/

theorem State.sound_empty : State.Sound {} := Environment.empty_sound

/-- The lines of a program keep an environment sound.  They fail by depth at most,
and not even so if the budget lasts for their operators and their blocks. -/
theorem runLines_keeps_sound (cap : Int) (code : Text) (budget : Nat) {allowed : Fault → Prop}
    (ops : Nat)
    (hops : allowed .nestingTooDeep ∨ ∀ line ∈ Lines.ofText code, Operator.count line ≤ ops)
    (hdepth : allowed .nestingTooDeep ∨ ops + 1 + Run.blockCost *
      (Tree.ofLines 0 ((Lines.ofText code).slice 0 (Lines.ofText code).size)).depth ≤ budget) :
    Run.Keeps State.Sound allowed (runLines cap (.ofText code) budget) := by
  apply Run.range_keeps cap _ _ 0 _ 0 (Nat.le_refl _) (ops + 1) _ hdepth
  intro line hslice _ b _ hb
  have hline := Lines.mem_of_mem_slice hslice
  apply Lines.keeps_sound_of_mem hline
  intro hcount
  rcases hops with ha | hops
  · exact ha
  · have := hops line hline
    exact hb.resolve_right (by omega)

/-- With any budget a program ends without a fault, or by depth. -/
theorem Outcome.fault_by_depth (cap : Int) (code : Text) (budget : Nat) :
    (ofProgram cap code budget).fault = none ∨
      (ofProgram cap code budget).fault = some .nestingTooDeep := by
  have h := @runLines_keeps_sound cap code budget (fun f => f = .nestingTooDeep) 0 (Or.inl rfl)
    (Or.inl rfl) {} State.sound_empty
  rw [ofProgram_eq_endingFrom]
  cases hf : ((Lines.ofText code).endingFrom cap budget {}).2 with
  | none => exact Or.inl rfl
  | some f => exact Or.inr (congrArg some (h.2 f hf))

/-- A program ends without a fault, or by depth; and without one, if its lines hold
few operators and lie in few blocks. -/
theorem Outcome.fault_only_by_depth (cap : Int) (code : Text) :
    ((Outcome.ofProgram cap code).fault = none ∨
      (Outcome.ofProgram cap code).fault = some .nestingTooDeep) ∧
    ((∀ line ∈ Lines.ofText code, Operator.count line ≤ 300) →
      (∀ p < (Lines.ofText code).size, (Lines.ofText code).nesting (fun _ => true) p ≤ 100) →
      (Outcome.ofProgram cap code).fault = none) := by
  refine ⟨Outcome.fault_by_depth cap code nestingLimit, ?_⟩
  intro hops hnesting
  have hdepth : (Tree.ofLines 0
      ((Lines.ofText code).slice 0 (Lines.ofText code).size)).depth ≤ 100 + 1 := by
    apply Lines.depth_ofLines_le (Nat.le_refl _)
    intro p _ hp
    rw [← Lines.nesting_eq]
    exact hnesting p hp
  have hbudget : 300 + 1 + Run.blockCost * (Tree.ofLines 0
      ((Lines.ofText code).slice 0 (Lines.ofText code).size)).depth ≤ nestingLimit := by
    rw [Run.blockCost, nestingLimit]
    omega
  have h := @runLines_keeps_sound cap code nestingLimit (fun _ => False) 300 (Or.inr hops)
    (Or.inr hbudget) {} State.sound_empty
  rw [Cursor.ofProgram_eq]
  exact Option.eq_none_iff_forall_ne_some.mpr h.2

/-- Two nested blocks that divide by zero and outgrow the integers. -/
def sampleProgram : Text :=
  "n = 9007199254740991\nwhile n > 0:\n    if n / 0 == 0:\n        n = n * n - 1\nprint(n)".toList

theorem Outcome.sampleProgram_ends :
    (∀ line ∈ Lines.ofText sampleProgram, Operator.count line ≤ 300) ∧
    (∀ p < (Lines.ofText sampleProgram).size,
      (Lines.ofText sampleProgram).nesting (fun _ => true) p ≤ 100) ∧
    (Outcome.ofProgram (1000 : Int) sampleProgram).fault = none := by
  have hops : ∀ line ∈ Lines.ofText sampleProgram, Operator.count line ≤ 300 := by decide
  have hnesting : ∀ p < (Lines.ofText sampleProgram).size,
      (Lines.ofText sampleProgram).nesting (fun _ => true) p ≤ 100 := by decide
  exact ⟨hops, hnesting, (fault_only_by_depth 1000 sampleProgram).2 hops hnesting⟩

/-! ## Environments -/

/-- An environment is sound before a program runs, stays so with every statement, also
halfway through an assignment, and is so in every state that a run reaches or ends
in; and an expression has a sound value in it, unless it is as deep as the budget. -/
theorem environment_sound (cap : Int) (code : Text) :
    Environment.empty.Sound ∧
    (∀ env : Environment, env.Sound → ∀ budget t,
      (∃ v, Expression.eval env budget t = .ok v ∧ v.Sound) ∨
      Expression.eval env budget t = .error .nestingTooDeep ∧ budget ≤ Operator.count t) ∧
    (∀ (c : Cursor) (line : Text), c.InBounds (.ofText code) →
      c.Dispatches (.ofText code) line → c.state.Sound →
      (Run.ending (Run.statement cap (.ofText code) c.budget c.position c.stop
        (Text.strip line) (Line.indent line)) c.state).1.Sound) ∧
    (∀ (c : Cursor) (line : Text) (a : Assignment) (values : List Value) (n : Nat),
      c.Dispatches (.ofText code) line → Statement.ofLine (Text.strip line) = .assign a →
      a.sources.mapM (Expression.eval c.state.env c.budget) = .ok values → c.state.Sound →
      (c.state.env.bind (a.targets.take n) values).Sound) ∧
    (∀ c, Cursor.Reaches cap (.ofText code) (.initial (.ofText code)) c → c.state.Sound) ∧
    (Run.ending (runLines cap (.ofText code)) {}).1.Sound := by
  have hlines : ∀ line ∈ Lines.ofText code, ∀ b,
      (Statement.ofLine (Text.strip line)).Keeps State.Sound (fun _ => True) b :=
    fun line hline b => Lines.keeps_sound_of_mem hline fun _ => trivial
  have hreached : ∀ c, Cursor.Reaches cap (.ofText code) (.initial (.ofText code)) c →
      c.state.Sound :=
    fun c hc => (hc.keeps hlines (Cursor.initial_inBounds _) State.sound_empty).2
  refine ⟨Environment.empty_sound, ?_, ?_, ?_, hreached, ?_⟩
  · intro env henv budget t
    have h := Expression.eval_sound henv budget t
    cases he : Expression.eval env budget t with
    | ok v =>
      rw [he] at h
      exact Or.inl ⟨v, rfl, h⟩
    | error f =>
      rw [he] at h
      exact Or.inr ⟨by rw [h.1], h.2⟩
  · intro c line hc hat hsound
    obtain ⟨i, stop, hi, hstop, -, hs⟩ := hc.exists_nat
    have hinside := hat.inside
    rw [hi, hstop] at hinside ⊢
    exact (Run.statement_keeps trivial hlines cap c.budget (by omega) hs
      (hlines line hat.mem) _ c.state hsound).1
  · intro c line a values n hat hst hvalues hsound
    have hsources := sources_sound hsound c.budget a.sources
    rw [hvalues] at hsources
    refine Environment.Sound.bind hsound ?_ hsources
    intro x hx
    exact Statement.target_of_mem (Lines.not_mem_strip hat.mem) hst (List.mem_of_mem_take hx)
  · -- the state that a run leaves is one that it reaches
    obtain ⟨d, hd, hstate⟩ := Cursor.reachesState_ending cap (.ofText code)
      (.initial (.ofText code))
    exact hstate ▸ hreached d hd

/-- A loop that runs twice, and binds two names in each run. -/
def sampleLoop : Text :=
  "a, b = 'go', 'go'\nwhile a == 'go':\n    a, b = b, 'stop'\nprint(a)".toList

/-- The loop of the sample at the start of its first run. -/
def sampleCursor : Cursor :=
  ⟨nestingLimit - Run.blockCost, 2, 3, 4,
    { env := ⟨[("a".toList, .text "go".toList), ("b".toList, .text "go".toList)]⟩ }⟩

theorem sampleLoop_sound :
    Cursor.Reaches (1000 : Int) (.ofText sampleLoop) (.initial (.ofText sampleLoop))
      sampleCursor ∧
    sampleCursor.InBounds (.ofText sampleLoop) ∧
    sampleCursor.Dispatches (.ofText sampleLoop) "    a, b = b, 'stop'".toList ∧
    sampleCursor.state.Sound ∧
    (Run.ending (Run.statement (1000 : Int) (.ofText sampleLoop) sampleCursor.budget
      sampleCursor.position sampleCursor.stop (Text.strip "    a, b = b, 'stop'".toList)
      (Line.indent "    a, b = b, 'stop'".toList)) sampleCursor.state).1.Sound ∧
    (sampleCursor.state.env.bind (["a".toList, "b".toList].take 1)
      [.text "go".toList, .text "stop".toList]).Sound ∧
    ∃ v, Expression.eval sampleCursor.state.env sampleCursor.budget "b".toList = .ok v ∧
      v.Sound := by
  have h := environment_sound 1000 sampleLoop
  have hat : sampleCursor.Dispatches (.ofText sampleLoop) "    a, b = b, 'stop'".toList :=
    ⟨⟨by decide, rfl⟩, rfl, rfl⟩
  have hbounds : sampleCursor.InBounds (.ofText sampleLoop) := ⟨by decide, by decide, by decide⟩
  have hfirst : (Cursor.initial (.ofText sampleLoop)).Dispatches (.ofText sampleLoop)
      "a, b = 'go', 'go'".toList := ⟨⟨by decide, rfl⟩, rfl, rfl⟩
  have hloop : ((Cursor.initial (.ofText sampleLoop)).moveTo 1 sampleCursor.state).Dispatches
      (.ofText sampleLoop) "while a == 'go':".toList := ⟨⟨by decide, rfl⟩, rfl, rfl⟩
  have hassigned : Cursor.Step (1000 : Int) (.ofText sampleLoop) (.initial (.ofText sampleLoop))
      ((Cursor.initial (.ofText sampleLoop)).moveTo 1 sampleCursor.state) := .next hfirst rfl
  have hruns : Run.runs (1000 : Int) .repeated = .ok 1000 := rfl
  have hentered : Cursor.Step (1000 : Int) (.ofText sampleLoop)
      ((Cursor.initial (.ofText sampleLoop)).moveTo 1 sampleCursor.state) sampleCursor :=
    .enter hloop rfl rfl hruns (Nat.zero_lt_succ 999) (by decide) rfl rfl rfl
  have hreached := Relation.ReflTransGen.tail (.single hassigned) hentered
  have hsound := h.2.2.2.2.1 _ hreached
  exact ⟨hreached, hbounds, hat, hsound, h.2.2.1 _ _ hbounds hat hsound,
    h.2.2.2.1 _ _ ⟨["a".toList, "b".toList], [" b".toList, " 'stop'".toList]⟩ _ 1 hat rfl rfl
      hsound,
    (h.2.1 _ hsound sampleCursor.budget "b".toList).resolve_right fun hb =>
      absurd hb.2 (by decide)⟩

end LineScript
