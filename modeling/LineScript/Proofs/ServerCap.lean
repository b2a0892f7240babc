import LineScript.Proofs.Reach
import LineScript.Server.Request

set_option autoImplicit false

/-!
# The cap that a request runs under

A request is run under what its client asks for, held between zero and the ceiling
of the server.  The ceiling itself is a number that the operator wrote, and may be
below zero; then no loop runs at all, as under a cap of zero.

Proved: caps that allow the same number of runs cannot be told apart
(`Outcome.ofProgram_congr_cap`); every request is either refused, with the reason
why its cap is no integer, or answered with the report of its program under the cap
that it is entitled to, which is never larger than the one without settings
(`Request.answer_under_cap`); and a cap lies between zero and the ceiling unless a
ceiling below zero is handed out as it is (`cap_legal_iff`).
-/

namespace LineScript

/-! ## Caps that allow the same runs -/

/-- A tree is run alike under caps that allow the same number of runs. -/
theorem Tree.run_congr_cap {cap cap' : Int} (h : cap.toNat = cap'.toNat) (budget : Nat)
    (t : Tree) : t.run cap budget = t.run cap' budget := by
  induction t generalizing budget with
  | done => rfl
  | assign a rest ih => rw [run, run, ih]
  | print argument rest ih => rw [run, run, ih]
  | ignored rest ih => rw [run, run, ih]
  | block kind condition body rest ihbody ihrest =>
    have hbody : (fun left => body.run cap left) = fun left => body.run cap' left :=
      funext ihbody
    rw [run, run, ihrest, hbody]
    cases kind with
    | once => rfl
    | repeated => rw [perform, perform, h]

/-- Caps that allow the same number of runs cannot be told apart. -/
theorem Outcome.ofProgram_congr_cap {cap cap' : Int} (h : cap.toNat = cap'.toNat)
    (code : Text) (budget : Nat) : ofProgram cap code budget = ofProgram cap' code budget := by
  rw [ofProgram_eq_endingFrom, ofProgram_eq_endingFrom, Lines.endingFrom_eq, Lines.endingFrom_eq,
    Tree.run_congr_cap h]

/-- A cap below zero is as good as one of zero. -/
theorem Report.ofCode_max_zero (cap : Int) (code : Text) (budget : Nat) :
    ofCode (max 0 cap : Int) code budget = ofCode cap code budget := by
  have hcap : (max 0 cap).toNat = cap.toNat := by omega
  rw [ofCode, ofCode, Outcome.ofProgram_congr_cap hcap]

namespace Server

/-! ## Reading -/

/-- The ceiling is the default, or what the operator set, if that is less. -/
theorem ceiling_eq_ok {setting : Option Text} {s : Int} (h : ceiling setting = .ok s) :
    (setting = none ∨ setting = some []) ∧ s = defaultCap ∨
      ∃ t n, setting = some t ∧ t ≠ [] ∧ Integer.ofText t = .ok n ∧ s = min n defaultCap := by
  unfold ceiling at h
  split at h
  · exact Or.inl ⟨Or.inl rfl, (Except.ok.inj h).symm⟩
  · exact Or.inl ⟨Or.inr rfl, (Except.ok.inj h).symm⟩
  · rename_i t hne
    cases hread : Integer.ofText t with
    | error e => simp [hread, Except.map] at h
    | ok n =>
      rw [hread] at h
      exact Or.inr ⟨t, n, rfl, hne, hread, (Except.ok.inj h).symm⟩

theorem ceiling_le {setting : Option Text} {s : Int} (h : ceiling setting = .ok s) :
    s ≤ defaultCap := by
  rcases ceiling_eq_ok h with ⟨-, rfl⟩ | ⟨t, n, -, -, -, rfl⟩
  · exact Int.le_refl _
  · exact Int.min_le_right _ _

namespace Request

/-- The data has a text as its program and, as its settings, an object, nothing, or no
such field. -/
inductive Accepted : Datum → Request → Prop
  | configured {fields : List (Text × Datum)} {r : Request}
      (hcode : fields.lookup "code".toList = some (.scalar (.text r.code)))
      (hsettings : fields.lookup "settings".toList = some (.object r.settings)) :
      Accepted (.object fields) r
  | plain {fields : List (Text × Datum)} {code : Text}
      (hcode : fields.lookup "code".toList = some (.scalar (.text code)))
      (hsettings : fields.lookup "settings".toList = none ∨
        fields.lookup "settings".toList = some .null) :
      Accepted (.object fields) ⟨code, []⟩

/-- Such data is read as the request that it holds. -/
theorem ofDatum_of_accepted {body : Datum} {r : Request} (h : Accepted body r) :
    ofDatum body = .ok r := by
  cases h with
  | configured hcode hsettings => rw [ofDatum, code?, hcode, settings?, hsettings]
  | plain hcode hsettings =>
    rw [ofDatum, code?, hcode, settings?]
    rcases hsettings with hsettings | hsettings
    · rw [hsettings]
    · rw [hsettings]

/-- The cap that a request asks for; the ceiling, if it does not ask for any. -/
def wanted (ceiling : Int) (r : Request) : Except IntegerError Int :=
  match r.settings.lookup capKey with
  | none => .ok ceiling
  | some d => Integer.ofDatum d

/-! ## Answering -/

/-- Settings hold the cap that is asked for between zero and the ceiling. -/
theorem capFor_of_settings (s : Int) {r : Request} (h : r.settings ≠ []) :
    capFor s r.settings = (r.wanted s).map fun n => max 0 (min n s) := by
  rw [capFor, wanted]
  · cases r.settings.lookup capKey with
    | none => simp only [Except.map, Int.min_self]
    | some d => rfl
  · exact h

/-- Without settings a program runs under the ceiling, or under zero if that is less. -/
theorem answer_without_settings (s : Int) (code : Text) (budget : Nat) :
    answer s ⟨code, []⟩ budget = .ofCode (max 0 s : Int) code budget := by
  rw [Report.ofCode_max_zero]
  rfl

/-- A request is refused for a cap that is no integer, and else it runs under what it
asks for, between zero and the ceiling. -/
theorem answer_eq (s : Int) (r : Request) (budget : Nat) :
    r.answer s budget = match r.wanted s with
      | .ok n => .ofCode (max 0 (min n s) : Int) r.code budget
      | .error e => .refused e.message := by
  by_cases hsettings : r.settings = []
  · obtain ⟨code, settings⟩ := r
    obtain rfl : settings = [] := hsettings
    rw [answer_without_settings]
    simp only [wanted, List.lookup_nil, Int.min_self]
  · rw [answer, capFor_of_settings s hsettings]
    cases r.wanted s with
    | ok n => rfl
    | error e => rfl

/-- What a request is answered.  If it asks for a cap that is no integer, the reason is
all of the answer, whatever the program.  Otherwise the program runs under the cap that
is asked for, or the ceiling, held between zero and the ceiling: never under a larger
one than without settings, and as without settings if at least the ceiling is asked
for.  This is so however deep the server lets programs nest. -/
theorem answer_under_cap (setting : Option Text) (s : Int) (hs : ceiling setting = .ok s)
    (body : Datum) (r : Request) (hbody : Accepted body r) (budget : Nat) :
    ((setting = none ∨ setting = some []) ∧ s = 1000 ∨
      ∃ t n, setting = some t ∧ t ≠ [] ∧ Integer.ofText t = .ok n ∧ s = min n 1000) ∧
    ofDatum body = .ok r ∧
    (∀ e, r.wanted s = .error e →
      ∀ code, answer s ⟨code, r.settings⟩ budget = ⟨[], some e.message, []⟩) ∧
    (∀ n, r.wanted s = .ok n → ∃ cap : Int, cap = max 0 (min n s) ∧ 0 ≤ cap ∧ cap ≤ 1000 ∧
      r.answer s budget = ⟨(Outcome.ofProgram cap r.code budget).output,
        (Outcome.ofProgram cap r.code budget).fault.map Fault.message, r.code⟩ ∧
      (cap ≤ max 0 s ∧ answer s ⟨r.code, []⟩ budget = .ofCode (max 0 s : Int) r.code budget) ∧
      (s ≤ n → r.answer s budget = answer s ⟨r.code, []⟩ budget)) := by
  refine ⟨ceiling_eq_ok hs, ofDatum_of_accepted hbody, ?_, ?_⟩
  · intro e he code
    have hwanted : (Request.mk code r.settings).wanted s = .error e := he
    rw [answer_eq, hwanted]
    rfl
  · intro n hn
    have hle : s ≤ 1000 := ceiling_le hs
    have hanswer : r.answer s budget = .ofCode (max 0 (min n s) : Int) r.code budget := by
      rw [answer_eq, hn]
    refine ⟨max 0 (min n s), rfl, by omega, by omega, hanswer, ?_, ?_⟩
    · exact ⟨by omega, answer_without_settings s r.code budget⟩
    · intro hlarge
      rw [hanswer, answer_without_settings, Int.min_eq_right hlarge]

/-- A request for a loop without end, of which nine runs are wanted. -/
def nineRuns : Request :=
  ⟨"while 1:\n  print(1)".toList, [(capKey, .scalar (.text " 9 ".toList))]⟩

/-- The data of the request, with a field that nothing reads. -/
def nineRunsBody : Datum :=
  .object [("code".toList, .scalar (.text nineRuns.code)), ("user".toList, .null),
    ("settings".toList, .object nineRuns.settings)]

theorem nineRuns_under_negative_ceiling :
    ceiling (some "-3".toList) = .ok (-3) ∧ Accepted nineRunsBody nineRuns ∧
    nineRuns.wanted (-3) = .ok 9 ∧
    nineRuns.answer (-3) =
      ⟨(Outcome.ofProgram (0 : Int) nineRuns.code FrontEnd.request.budget).output,
        (Outcome.ofProgram (0 : Int) nineRuns.code FrontEnd.request.budget).fault.map
          Fault.message, nineRuns.code⟩ ∧
    nineRuns.answer (-3) = answer (-3) ⟨nineRuns.code, []⟩ := by
  have hs : ceiling (some "-3".toList) = .ok (-3) := rfl
  have hbody : Accepted nineRunsBody nineRuns := .configured rfl rfl
  have hwanted : nineRuns.wanted (-3) = .ok 9 := rfl
  obtain ⟨cap, rfl, -, -, hanswer, -, hlarge⟩ :=
    (answer_under_cap (some "-3".toList) (-3) hs nineRunsBody nineRuns hbody
      FrontEnd.request.budget).2.2.2 9 hwanted
  exact ⟨hs, hbody, hwanted, hanswer, hlarge (by decide)⟩

end Request

/-! ## The range of a cap -/

/-- The cap that settings ask for, if they ask for one, can be read as an integer. -/
def Settings.Readable (settings : Settings) : Prop :=
  ∀ wanted, settings.lookup capKey = some wanted → ∃ n, Integer.ofDatum wanted = .ok n

/-- Settings that ask for a cap and nothing else. -/
def askingFor (cap : Int) : Settings := [(capKey, .scalar (.num (.int cap)))]

theorem capFor_askingFor (s cap : Int) : capFor s (askingFor cap) = .ok (max 0 (min cap s)) := rfl

/-- Settings that can be read hold the cap between zero and the ceiling. -/
theorem capFor_of_readable (s : Int) {settings : Settings} (hread : settings.Readable)
    (hsettings : settings ≠ []) : ∃ n, capFor s settings = .ok (max 0 (min n s)) := by
  rw [Request.capFor_of_settings s (r := ⟨[], settings⟩) hsettings, Request.wanted]
  cases hwanted : settings.lookup capKey with
  | none => exact ⟨s, rfl⟩
  | some wanted =>
    obtain ⟨n, hn⟩ := hread wanted hwanted
    refine ⟨n, ?_⟩
    simp only [hn, Except.map]

/-- The cap for a request is never above the ceiling, or above zero if that is more, and
never above the default.  It is at least zero, and the cap again if it is asked for, exactly
if there are settings or the ceiling is at least zero: a ceiling below zero is handed out as
it is to a request without settings, and only there. -/
theorem cap_legal_iff (setting : Option Text) (s : Int) (hs : ceiling setting = .ok s)
    (settings : Settings) (hread : settings.Readable) :
    ∃ cap, capFor s settings = .ok cap ∧ cap ≤ max 0 s ∧ cap ≤ 1000 ∧
      (settings = [] → cap = s) ∧
      (0 ≤ cap ↔ settings ≠ [] ∨ 0 ≤ s) ∧
      (capFor s (askingFor cap) = .ok cap ↔ settings ≠ [] ∨ 0 ≤ s) := by
  have hle : s ≤ 1000 := ceiling_le hs
  have hagain : ∀ cap, capFor s (askingFor cap) = .ok cap ↔ max 0 (min cap s) = cap := by
    intro cap
    rw [capFor_askingFor, Except.ok.injEq]
  by_cases hsettings : settings = []
  · subst hsettings
    refine ⟨s, rfl, by omega, hle, fun _ => rfl, by simp, ?_⟩
    have hmax : max 0 s = s ↔ 0 ≤ s := by omega
    rw [hagain, Int.min_self, hmax]
    simp
  · obtain ⟨n, hn⟩ := capFor_of_readable s hread hsettings
    have hlegal : settings ≠ [] ∨ 0 ≤ s := Or.inl hsettings
    refine ⟨_, hn, by omega, by omega, fun h => absurd h hsettings, ?_, ?_⟩
    · exact iff_of_true (by omega) hlegal
    · exact iff_of_true ((hagain _).mpr (by omega)) hlegal

/-- Settings whose cap is a truth value, next to a tunable that nothing reads. -/
def truthSettings : Settings :=
  [("max_steps".toList, .null), (capKey, .scalar (.bool true))]

theorem truthSettings_legal :
    ceiling (some " 1_2 ".toList) = .ok 12 ∧ truthSettings.Readable ∧
    ∃ cap, capFor 12 truthSettings = .ok cap ∧ 0 ≤ cap ∧ cap ≤ 12 ∧
      capFor 12 (askingFor cap) = .ok cap := by
  have hs : ceiling (some " 1_2 ".toList) = .ok 12 := rfl
  have hread : truthSettings.Readable := by
    intro wanted hwanted
    obtain rfl : Datum.scalar (.bool true) = wanted := Option.some.inj hwanted
    exact ⟨1, rfl⟩
  have hlegal : truthSettings ≠ [] ∨ (0 : Int) ≤ 12 := Or.inr (by decide)
  obtain ⟨cap, hcap, hle, -, -, hzero, hagain⟩ :=
    cap_legal_iff (some " 1_2 ".toList) 12 hs truthSettings hread
  exact ⟨hs, hread, cap, hcap, hzero.mpr hlegal, hle, hagain.mpr hlegal⟩

/-- A ceiling below zero is the cap of a request without settings, and asking for that cap
gives another one. -/
theorem negative_ceiling_handed_out :
    ceiling (some "-5".toList) = .ok (-5) ∧ capFor (-5) [] = .ok (-5) ∧ ¬ (0 : Int) ≤ -5 ∧
    capFor (-5) (askingFor (-5)) = .ok 0 :=
  ⟨rfl, rfl, by decide, rfl⟩

end Server

end LineScript
