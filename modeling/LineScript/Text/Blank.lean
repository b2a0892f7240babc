import LineScript.Text.Basic

set_option autoImplicit false

/-!
# Text: blanks

Blanks are the characters that separate words: the controls that move the
cursor, the four separators of the ASCII control block, and every space of the
general repertoire.  A zero-width space and a byte order mark are no blanks.

Proved: what `strip` returns neither starts nor ends with a blank
(`head?_strip`, `getLast?_strip`), stripping again changes nothing
(`strip_strip`), blanks that are put at either end are stripped off again
(`strip_blanks_append`, `strip_append_blanks`), and around a character that is no
blank the two ends are stripped apart (`strip_append_cons`).
-/

namespace LineScript.Text

/-- The code points of the blanks, as closed ranges in ascending order. -/
def blankRanges : List (Nat × Nat) :=
  [(0x9, 0xD), (0x1C, 0x20), (0x85, 0x85), (0xA0, 0xA0), (0x1680, 0x1680),
   (0x2000, 0x200A), (0x2028, 0x2029), (0x202F, 0x202F), (0x205F, 0x205F),
   (0x3000, 0x3000)]

/-- The character separates words. -/
def isBlank (c : Char) : Bool :=
  blankRanges.any fun r => r.1 ≤ c.toNat && c.toNat ≤ r.2

/-- The text without the blanks at its end. -/
def stripRight (t : Text) : Text := (t.reverse.dropWhile isBlank).reverse

/-- The text without the blanks at either end. -/
def strip (t : Text) : Text := stripRight (t.dropWhile isBlank)

/-- The blanks cut off at the end are a run of blanks. -/
theorem stripRight_append (t : Text) :
    stripRight t ++ (t.reverse.takeWhile isBlank).reverse = t := by
  rw [stripRight, ← List.reverse_append, List.takeWhile_append_dropWhile,
    List.reverse_reverse]

theorem getLast?_stripRight {t : Text} {c : Char}
    (h : (stripRight t).getLast? = some c) : isBlank c = false := by
  rw [stripRight, List.getLast?_reverse] at h
  have := List.head?_dropWhile_not isBlank t.reverse
  rw [h] at this
  simpa using this

theorem stripRight_eq_self {t : Text}
    (h : ∀ c, t.getLast? = some c → isBlank c = false) : stripRight t = t := by
  unfold stripRight
  cases hr : t.reverse with
  | nil => simpa using congrArg List.reverse hr
  | cons c cs =>
    have hc : isBlank c = false := h c (by rw [← List.head?_reverse, hr]; rfl)
    rw [List.dropWhile_cons_of_neg (by simp [hc]), ← hr, List.reverse_reverse]

theorem head?_stripRight (t : Text) :
    (stripRight t).head? = none ∨ (stripRight t).head? = t.head? := by
  have h := stripRight_append t
  cases hs : stripRight t with
  | nil => exact Or.inl rfl
  | cons c cs =>
    rw [hs] at h
    exact Or.inr (by rw [← h]; rfl)

/-- A stripped text does not end with a blank. -/
theorem getLast?_strip {t : Text} {c : Char} (h : (strip t).getLast? = some c) :
    isBlank c = false :=
  getLast?_stripRight h

/-- A stripped text does not start with a blank. -/
theorem head?_strip {t : Text} {c : Char} (h : (strip t).head? = some c) :
    isBlank c = false := by
  have hd := List.head?_dropWhile_not isBlank t
  rcases head?_stripRight (t.dropWhile isBlank) with hn | he
  · rw [strip, hn] at h
    exact absurd h (by simp)
  · rw [strip, he] at h
    rw [h] at hd
    simpa using hd

theorem strip_eq_self {t : Text} (hh : ∀ c, t.head? = some c → isBlank c = false)
    (hl : ∀ c, t.getLast? = some c → isBlank c = false) : strip t = t := by
  have hd : t.dropWhile isBlank = t := by
    cases t with
    | nil => rfl
    | cons c cs => exact List.dropWhile_cons_of_neg (by simp [hh c rfl])
  rw [strip, hd, stripRight_eq_self hl]

theorem strip_strip (t : Text) : strip (strip t) = strip t :=
  strip_eq_self (fun _ => head?_strip) (fun _ => getLast?_strip)

/-! ## Blanks at an end -/

theorem stripRight_append_blanks (t : Text) {tail : Text}
    (h : ∀ c ∈ tail, isBlank c = true) : stripRight (t ++ tail) = stripRight t := by
  have hreverse : ∀ c ∈ tail.reverse, isBlank c = true :=
    fun c hc => h c (List.mem_reverse.mp hc)
  rw [stripRight, stripRight, List.reverse_append, List.dropWhile_append_of_pos hreverse]

theorem dropWhile_blanks {t : Text} (h : ∀ c ∈ t, isBlank c = true) :
    t.dropWhile isBlank = [] := by
  have hdrop := @List.dropWhile_append_of_pos Char isBlank t [] h
  rwa [List.append_nil, List.dropWhile_nil] at hdrop

theorem strip_blanks_append {lead : Text} (h : ∀ c ∈ lead, isBlank c = true) (t : Text) :
    strip (lead ++ t) = strip t := by
  rw [strip, strip, List.dropWhile_append_of_pos h]

theorem strip_append_blanks (t : Text) {tail : Text} (h : ∀ c ∈ tail, isBlank c = true) :
    strip (t ++ tail) = strip t := by
  rw [strip, strip, List.dropWhile_append]
  split
  · rename_i hempty
    rw [List.isEmpty_iff.mp hempty, dropWhile_blanks h]
  · exact stripRight_append_blanks _ h

/-! ## What is not blank -/

/-- The characters of words and signs are no blanks. -/
theorem isBlank_eq_false {c : Char} (h : 33 ≤ c.toNat ∧ c.toNat ≤ 132) :
    isBlank c = false := by
  have hranges : ∀ r ∈ blankRanges, r.2 < 33 ∨ 132 < r.1 := by decide
  rw [isBlank, List.any_eq_false]
  intro r hr
  have := hranges r hr
  simp only [Bool.and_eq_true, decide_eq_true_eq]
  omega

theorem dropWhile_append_cons (l r : Text) {c : Char} (h : isBlank c = false) :
    (l ++ c :: r).dropWhile isBlank = l.dropWhile isBlank ++ c :: r := by
  rw [List.dropWhile_append]
  split
  · rename_i hempty
    rw [List.isEmpty_iff.mp hempty, List.dropWhile_cons_of_neg (by simp [h]), List.nil_append]
  · rfl

theorem stripRight_append_cons (l r : Text) {c : Char} (h : isBlank c = false) :
    stripRight (l ++ c :: r) = l ++ c :: stripRight r := by
  have hreverse : (l ++ c :: r).reverse = r.reverse ++ c :: l.reverse := by simp
  rw [stripRight, hreverse, dropWhile_append_cons _ _ h]
  simp [stripRight]

/-- What is not blank keeps apart the two ends at which a text is stripped. -/
theorem strip_append_cons (l r : Text) {c : Char} (h : isBlank c = false) :
    strip (l ++ c :: r) = l.dropWhile isBlank ++ c :: stripRight r := by
  rw [strip, dropWhile_append_cons l r h, stripRight_append_cons _ r h]

theorem strip_dropWhile (t : Text) : strip (t.dropWhile isBlank) = strip t := by
  have hlead : ∀ c ∈ t.takeWhile isBlank, isBlank c = true :=
    List.all_eq_true.mp List.all_takeWhile
  have hstrip := strip_blanks_append hlead (t.dropWhile isBlank)
  rwa [List.takeWhile_append_dropWhile, eq_comm] at hstrip

theorem strip_stripRight (t : Text) : strip (stripRight t) = strip t := by
  have htail : ∀ c ∈ (t.reverse.takeWhile isBlank).reverse, isBlank c = true := by
    intro c hc
    exact List.all_eq_true.mp List.all_takeWhile c (List.mem_reverse.mp hc)
  have hstrip := strip_append_blanks (stripRight t) htail
  rwa [stripRight_append, eq_comm] at hstrip

end LineScript.Text
