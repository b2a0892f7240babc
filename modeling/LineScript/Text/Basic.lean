set_option autoImplicit false

/-!
# Text: cutting, cutting off and replacing

Every text of a program, a line, a name, an expression, is a list of characters,
so a rule about text is a rule about lists.  This file holds the three ways in
which the language takes a text apart: at the first occurrence of a separator,
before the last occurrence of a character, and by replacing every occurrence.

Proved: a cut loses nothing (`cut?_eq_some`), and it succeeds as soon as the
separator occurs somewhere (`occurs_append`).
-/

namespace LineScript

/-- Text is a list of characters. -/
abbrev Text := List Char

namespace Text

/-! ## Cutting at a separator -/

/-- Cut a text at the first occurrence of a separator, which is dropped.  An
empty text has nothing to cut, whatever the separator. -/
def cut? (sep : Text) : Text → Option (Text × Text)
  | [] => none
  | c :: cs =>
    if sep.isPrefixOf (c :: cs) then some ([], (c :: cs).drop sep.length)
    else (cut? sep cs).map fun p => (c :: p.1, p.2)

/-- The separator occurs in the text. -/
def occurs (sep t : Text) : Bool := (cut? sep t).isSome

/-- The parts of a cut and the separator make up the text. -/
theorem cut?_eq_some {sep t l r : Text} (h : cut? sep t = some (l, r)) :
    t = l ++ sep ++ r := by
  induction t generalizing l r with
  | nil => simp [cut?] at h
  | cons c cs ih =>
    rw [cut?] at h
    split at h
    · rename_i hp
      obtain ⟨rest, hrest⟩ := List.isPrefixOf_iff_prefix.mp hp
      rw [← hrest] at h ⊢
      simp only [List.drop_left, Option.some.injEq, Prod.mk.injEq] at h
      simp [← h.1, ← h.2]
    · cases hc : cut? sep cs with
      | none => simp [hc] at h
      | some p =>
        obtain ⟨pl, pr⟩ := p
        simp only [hc, Option.map_some, Option.some.injEq, Prod.mk.injEq] at h
        rw [ih hc, ← h.1, ← h.2]
        simp

/-- A non-empty separator that was written into a text is found there. -/
theorem occurs_append (l r : Text) {sep : Text} (h : sep ≠ []) :
    occurs sep (l ++ sep ++ r) = true := by
  induction l with
  | nil =>
    cases sep with
    | nil => exact absurd rfl h
    | cons s ss =>
      have hp : (s :: ss).isPrefixOf (s :: (ss ++ r)) = true :=
        List.isPrefixOf_iff_prefix.mpr ⟨r, by simp⟩
      simp [occurs, cut?, hp]
  | cons c cs ih =>
    simp only [occurs] at ih ⊢
    simp only [List.cons_append]
    rw [cut?]
    split
    · rfl
    · simpa using ih

/-! ## Cutting off an end -/

/-- What stands before the last occurrence of a character. -/
def beforeLast? (d : Char) : Text → Option Text
  | [] => none
  | c :: cs =>
    match beforeLast? d cs with
    | some kept => some (c :: kept)
    | none => if c = d then some [] else none

/-- The text without its last character, if that is the given one. -/
def dropTrailing (d : Char) (t : Text) : Text :=
  if t.getLast? = some d then t.dropLast else t

/-! ## Replacing -/

/-- Replace every occurrence of a non-empty text, from the left and without
overlap.  The first argument counts the characters of an occurrence that are
still to be passed over. -/
def replaceFrom (old new : Text) : Nat → Text → Text
  | _, [] => []
  | skip + 1, _ :: cs => replaceFrom old new skip cs
  | 0, c :: cs =>
    if old.isPrefixOf (c :: cs) then new ++ replaceFrom old new (old.length - 1) cs
    else c :: replaceFrom old new 0 cs

/-- Replace every occurrence of `old` by `new`.  The empty text occurs before
every character and at the end. -/
def replaceAll (old new t : Text) : Text :=
  if old = [] then new ++ t.flatMap fun c => c :: new
  else replaceFrom old new 0 t

end Text

end LineScript
