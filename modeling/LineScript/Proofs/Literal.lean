import LineScript.Decimal

set_option autoImplicit false

/-!
# Literals

A literal is written as a minus sign, if it is negative, digits, and, if it has a
fraction, a point and digits.

Proved: reading and writing a literal are inverse to each other
(`Decimal.Literal.ofText?_eq_some_iff`), so a text that is read as a literal holds
nothing but digits, one point and a sign in front (`Decimal.Literal.mem_text`).
-/

namespace LineScript

namespace Text

/-- The text is a run of digits, and not empty. -/
structure IsDigits (t : Text) : Prop where
  ne_nil : t ≠ []
  all_digits : t.all Char.isDigit = true

instance (t : Text) : Decidable t.IsDigits :=
  decidable_of_iff (t ≠ [] ∧ t.all Char.isDigit = true)
    ⟨fun h => ⟨h.1, h.2⟩, fun h => ⟨h.ne_nil, h.all_digits⟩⟩

/-- Digits are read up to the first character that is none. -/
theorem spanDigits_digits_append {digits rest : Text} (hdigits : digits.all Char.isDigit = true)
    (hrest : rest.head?.any Char.isDigit = false) :
    spanDigits (digits ++ rest) = (digits, rest) := by
  have hall : ∀ c ∈ digits, c.isDigit = true := List.all_eq_true.mp hdigits
  rw [spanDigits, List.takeWhile_append_of_pos hall, List.dropWhile_append_of_pos hall]
  cases rest with
  | nil => rw [List.takeWhile_nil, List.dropWhile_nil, List.append_nil]
  | cons c cs =>
    have hc : ¬ c.isDigit = true := by simpa using hrest
    rw [List.takeWhile_cons_of_neg hc, List.dropWhile_cons_of_neg hc, List.append_nil]

end Text

/-- A text that starts with no sign is left as it is. -/
theorem Decimal.takeSign_of_head {t : Text} (hminus : t.head? ≠ some '-')
    (hplus : t.head? ≠ some '+') : takeSign t = (false, t) := by
  unfold takeSign
  split
  · exact absurd rfl hminus
  · exact absurd rfl hplus
  · rfl

/-- Digits start with no sign. -/
theorem Text.IsDigits.head?_ne {digits : Text} (h : digits.IsDigits) {c : Char}
    (hc : c.isDigit = false) : digits.head? ≠ some c := by
  intro hhead
  have hdigit := List.all_eq_true.mp h.all_digits c (List.mem_of_head? hhead)
  exact absurd (hc.symm.trans hdigit) Bool.false_ne_true

namespace Decimal.Literal

/-- The digits of a literal are digits, before the point and after it. -/
structure WellFormed (l : Literal) : Prop where
  whole : l.whole.IsDigits
  fraction : ∀ digits, l.fraction = some digits → digits.IsDigits

/-- The point and the digits after it, if there are any. -/
def fractionText : Option Text → Text
  | none => []
  | some digits => '.' :: digits

/-- How a literal without its sign is written. -/
def unsignedText (l : Literal) : Text := l.whole ++ fractionText l.fraction

/-- How a literal is written. -/
def text (l : Literal) : Text := if l.negative then '-' :: l.unsignedText else l.unsignedText

/-- Read a literal without its sign. -/
def ofUnsigned? (negative : Bool) (body : Text) : Option Literal :=
  let (whole, afterWhole) := Text.spanDigits body
  if whole = [] then none
  else match afterWhole with
    | [] => some ⟨negative, whole, none⟩
    | '.' :: fraction =>
      if fraction ≠ [] ∧ fraction.all Char.isDigit then some ⟨negative, whole, some fraction⟩
      else none
    | _ => none

theorem ofText?_eq (t : Text) :
    ofText? t =
      if t.head? = some '-' then ofUnsigned? true t.tail else ofUnsigned? false t := by
  unfold ofText?
  split
  rename_i negative body hbody
  split at hbody
  · obtain ⟨rfl, rfl⟩ := Prod.mk.inj hbody
    rw [List.head?_cons, if_pos rfl]
    rfl
  · rename_i hhead
    obtain ⟨rfl, rfl⟩ := Prod.mk.inj hbody
    rw [if_neg]
    · rfl
    · intro h
      obtain ⟨rest, rfl⟩ := List.head?_eq_some_iff.mp h
      exact hhead rest rfl

theorem ofUnsigned?_unsignedText {l : Literal} (h : l.WellFormed) :
    ofUnsigned? l.negative l.unsignedText = some l := by
  obtain ⟨negative, whole, fraction⟩ := l
  have hfraction : (fractionText fraction).head?.any Char.isDigit = false := by
    cases fraction with
    | none => rfl
    | some digits => rfl
  rw [ofUnsigned?, unsignedText, Text.spanDigits_digits_append h.whole.all_digits hfraction]
  simp only [if_neg h.whole.ne_nil]
  cases fraction with
  | none => rfl
  | some digits =>
    have hdigits := h.fraction digits rfl
    simp only [fractionText, if_pos (And.intro hdigits.ne_nil hdigits.all_digits)]

theorem of_ofUnsigned? {negative : Bool} {body : Text} {l : Literal}
    (h : ofUnsigned? negative body = some l) :
    l.WellFormed ∧ l.negative = negative ∧ body = l.unsignedText := by
  have hspan := Text.spanDigits_append body
  have hall := Text.all_isDigit_spanDigits body
  rw [ofUnsigned?] at h
  split at h
  rename_i whole afterWhole hparts
  rw [hparts] at hspan hall
  split at h
  · exact absurd h (by simp)
  · rename_i hwhole
    split at h
    · obtain rfl := Option.some.inj h
      exact ⟨⟨⟨hwhole, hall⟩, fun digits hd => absurd hd (by simp)⟩, rfl, hspan.symm⟩
    · rename_i fraction
      split at h
      · rename_i hfraction
        obtain rfl := Option.some.inj h
        refine ⟨⟨⟨hwhole, hall⟩, ?_⟩, rfl, hspan.symm⟩
        intro digits hd
        obtain rfl := Option.some.inj hd
        exact ⟨hfraction.1, hfraction.2⟩
      · exact absurd h (by simp)
    · exact absurd h (by simp)

theorem isDigit_of_head?_unsignedText {l : Literal} (h : l.WellFormed) {c : Char}
    (hc : l.unsignedText.head? = some c) : c.isDigit = true := by
  obtain ⟨d, ds, hwhole⟩ := List.exists_cons_of_ne_nil h.whole.ne_nil
  have hdigit := h.whole.all_digits
  rw [hwhole, List.all_cons, Bool.and_eq_true] at hdigit
  rw [unsignedText, hwhole, List.cons_append, List.head?_cons] at hc
  exact Option.some.inj hc ▸ hdigit.1

/-- Reading and writing a literal are inverse to each other. -/
theorem ofText?_eq_some_iff {t : Text} {l : Literal} :
    ofText? t = some l ↔ l.WellFormed ∧ t = l.text := by
  rw [ofText?_eq]
  constructor
  · intro h
    split at h
    · rename_i hhead
      obtain ⟨rest, rfl⟩ := List.head?_eq_some_iff.mp hhead
      obtain ⟨hl, hnegative, hrest⟩ := of_ofUnsigned? h
      refine ⟨hl, ?_⟩
      rw [text, hnegative, if_pos rfl, ← hrest]
      rfl
    · obtain ⟨hl, hnegative, hbody⟩ := of_ofUnsigned? h
      refine ⟨hl, ?_⟩
      rw [text, hnegative, if_neg Bool.false_ne_true, ← hbody]
  · rintro ⟨hl, rfl⟩
    have hread := ofUnsigned?_unsignedText hl
    cases hnegative : l.negative with
    | true =>
      rw [hnegative] at hread
      rw [text, hnegative, if_pos rfl, List.head?_cons, if_pos rfl]
      exact hread
    | false =>
      rw [hnegative] at hread
      rw [text, hnegative, if_neg Bool.false_ne_true, if_neg, hread]
      intro hhead
      exact absurd (isDigit_of_head?_unsignedText hl hhead) (by decide)

/-- A literal without a sign holds digits and a point. -/
theorem mem_text {l : Literal} (h : l.WellFormed) (hsign : l.negative = false) {c : Char}
    (hc : c ∈ l.text) : c.isDigit = true ∨ c = '.' := by
  rw [text, hsign, if_neg Bool.false_ne_true, unsignedText, List.mem_append] at hc
  rcases hc with hc | hc
  · exact Or.inl (List.all_eq_true.mp h.whole.all_digits c hc)
  · cases hfraction : l.fraction with
    | none =>
      rw [hfraction] at hc
      exact absurd hc (by simp [fractionText])
    | some digits =>
      rw [hfraction, fractionText, List.mem_cons] at hc
      rcases hc with hc | hc
      · exact Or.inr hc
      · exact Or.inl (List.all_eq_true.mp (h.fraction digits hfraction).all_digits c hc)

end Decimal.Literal

end LineScript
