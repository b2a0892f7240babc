import LineScript.Text.Utf8

set_option autoImplicit false

/-!
# UTF-8 reads back

A character is written as one to four bytes, and the decoder takes them in one by one:
the lead byte gives the first bits, and each further byte six more.

Proved: the decoder reads the bytes of a character as that character and goes on with
what follows them (`Text.decodeFrom_utf8Bytes`), so the bytes of a text are read as that
text (`Text.utf8Decode_utf8Encode`).
-/

namespace LineScript.Text

theorem toNat_byte {n : Nat} (h : n < 256) : (byte n).toNat = n :=
  UInt8.toNat_ofNat_of_lt' h

/-! ## Steps of the decoder -/

section

variable (position : Nat) (rest : List UInt8)

theorem decodeFrom_ascii {n : Nat} (h : n < 0x80) :
    utf8DecodeFrom position none (byte n :: rest) =
      (utf8DecodeFrom (position + 1) none rest).map (Char.ofNat n :: ·) := by
  rw [utf8DecodeFrom, toNat_byte (by omega), if_pos h]
  cases utf8DecodeFrom (position + 1) none rest with
  | ok t => rfl
  | error e => rfl

theorem decodeFrom_lead {b : UInt8} {p : Pending} (h : 0x80 ≤ b.toNat)
    (hp : Pending.ofLead? position b = some p) :
    utf8DecodeFrom position none (b :: rest) = utf8DecodeFrom (position + 1) (some p) rest := by
  rw [utf8DecodeFrom, if_neg (Nat.not_lt.mpr h), hp]

section

variable {n low high : Nat} (start : Nat) (lead : UInt8)
  (hlow : low ≤ 0x80 + n % 64) (hhigh : 0x80 + n % 64 ≤ high)

theorem extend_byte {p : Pending} (hbits : p.bits = n / 64) :
    p.extend (byte (0x80 + n % 64)) = n := by
  have hbyte := toNat_byte (show 0x80 + n % 64 < 256 by omega)
  unfold Pending.extend
  omega

include hlow hhigh in
/-- A byte in the middle of a character adds six bits. -/
theorem decodeFrom_middle (after : Nat) :
    utf8DecodeFrom position (some ⟨start, lead, n / 64, after + 1, low, high⟩)
        (byte (0x80 + n % 64) :: rest) =
      utf8DecodeFrom (position + 1) (some ⟨start, lead, n, after, 0x80, 0xBF⟩) rest := by
  rw [utf8DecodeFrom, toNat_byte (by omega), if_pos ⟨hlow, hhigh⟩,
    if_neg (Nat.succ_ne_zero after), extend_byte rfl]
  rfl

include hlow hhigh in
/-- The last byte of a character adds the last six bits. -/
theorem decodeFrom_last :
    utf8DecodeFrom position (some ⟨start, lead, n / 64, 0, low, high⟩)
        (byte (0x80 + n % 64) :: rest) =
      (utf8DecodeFrom (position + 1) none rest).map (Char.ofNat n :: ·) := by
  rw [utf8DecodeFrom, toNat_byte (by omega), if_pos ⟨hlow, hhigh⟩, if_pos rfl, extend_byte rfl]
  cases utf8DecodeFrom (position + 1) none rest with
  | ok t => rfl
  | error e => rfl

end

/-! ## Characters -/

theorem decodeFrom_two {n : Nat} (h : 0x80 ≤ n) (h' : n < 0x800) :
    utf8DecodeFrom position none (byte (0xC0 + n / 64) :: byte (0x80 + n % 64) :: rest) =
      (utf8DecodeFrom (position + 2) none rest).map (Char.ofNat n :: ·) := by
  have hlead := toNat_byte (show 0xC0 + n / 64 < 256 by omega)
  have hp : Pending.ofLead? position (byte (0xC0 + n / 64)) =
      some ⟨position, byte (0xC0 + n / 64), n / 64, 0, 0x80, 0xBF⟩ := by
    rw [Pending.ofLead?, hlead, if_neg (by omega), if_pos (by omega), Nat.add_sub_cancel_left]
  rw [decodeFrom_lead _ _ (by omega) hp, decodeFrom_last _ _ _ _ (by omega) (by omega)]

/-- The bounds of the byte after the lead byte rule out what fits into two bytes and the
surrogates, and none of these is a character of three bytes. -/
theorem decodeFrom_three {n : Nat} (h : 0x800 ≤ n) (h' : n < 0x10000)
    (hscalar : n < 0xD800 ∨ 0xDFFF < n) :
    utf8DecodeFrom position none
        (byte (0xE0 + n / 4096) :: byte (0x80 + n / 64 % 64) :: byte (0x80 + n % 64) :: rest) =
      (utf8DecodeFrom (position + 3) none rest).map (Char.ofNat n :: ·) := by
  have hlead := toNat_byte (show 0xE0 + n / 4096 < 256 by omega)
  have hhigh : n / 4096 = n / 64 / 64 := (Nat.div_div_eq_div_mul n 64 64).symm
  have hp : Pending.ofLead? position (byte (0xE0 + n / 4096)) =
      some ⟨position, byte (0xE0 + n / 4096), n / 64 / 64, 1,
        if 0xE0 + n / 4096 = 0xE0 then 0xA0 else 0x80,
        if 0xE0 + n / 4096 = 0xED then 0x9F else 0xBF⟩ := by
    rw [Pending.ofLead?, hlead, if_neg (by omega), if_neg (by omega), if_pos (by omega),
      Nat.add_sub_cancel_left, hhigh]
  rw [decodeFrom_lead _ _ (by omega) hp,
    decodeFrom_middle _ _ _ _ (by split <;> omega) (by split <;> omega),
    decodeFrom_last _ _ _ _ (by omega) (by omega)]

/-- The bounds of the byte after the lead byte rule out what fits into three bytes and
what is past the last code point. -/
theorem decodeFrom_four {n : Nat} (h : 0x10000 ≤ n) (h' : n < 0x110000) :
    utf8DecodeFrom position none
        (byte (0xF0 + n / 262144) :: byte (0x80 + n / 4096 % 64) :: byte (0x80 + n / 64 % 64)
          :: byte (0x80 + n % 64) :: rest) =
      (utf8DecodeFrom (position + 4) none rest).map (Char.ofNat n :: ·) := by
  have hlead := toNat_byte (show 0xF0 + n / 262144 < 256 by omega)
  have hmiddle : n / 4096 = n / 64 / 64 := (Nat.div_div_eq_div_mul n 64 64).symm
  have hhigh : n / 262144 = n / 64 / 64 / 64 := by
    rw [← hmiddle]
    exact (Nat.div_div_eq_div_mul n 4096 64).symm
  have hp : Pending.ofLead? position (byte (0xF0 + n / 262144)) =
      some ⟨position, byte (0xF0 + n / 262144), n / 64 / 64 / 64, 2,
        if 0xF0 + n / 262144 = 0xF0 then 0x90 else 0x80,
        if 0xF0 + n / 262144 = 0xF4 then 0x8F else 0xBF⟩ := by
    rw [Pending.ofLead?, hlead, if_neg (by omega), if_neg (by omega), if_neg (by omega),
      if_pos (by omega), Nat.add_sub_cancel_left, hhigh]
  rw [decodeFrom_lead _ _ (by omega) hp, hmiddle,
    decodeFrom_middle _ _ _ _ (by split <;> omega) (by split <;> omega),
    decodeFrom_middle _ _ _ _ (by omega) (by omega),
    decodeFrom_last _ _ _ _ (by omega) (by omega)]

/-- The bytes of a character are read as that character. -/
theorem decodeFrom_utf8Bytes (c : Char) :
    utf8DecodeFrom position none (utf8Bytes c ++ rest) =
      (utf8DecodeFrom (position + (utf8Bytes c).length) none rest).map (c :: ·) := by
  have hscalar : c.toNat < 0xD800 ∨ 0xDFFF < c.toNat ∧ c.toNat < 0x110000 := c.valid
  have hc : Char.ofNat c.toNat = c := Char.ofNat_toNat c
  by_cases hone : c.toNat < 0x80
  · rw [utf8Bytes, if_pos hone]
    have hread := decodeFrom_ascii position rest hone
    rwa [hc] at hread
  by_cases htwo : c.toNat < 0x800
  · rw [utf8Bytes, if_neg hone, if_pos htwo]
    have hread := decodeFrom_two position rest (Nat.not_lt.mp hone) htwo
    rwa [hc] at hread
  by_cases hthree : c.toNat < 0x10000
  · rw [utf8Bytes, if_neg hone, if_neg htwo, if_pos hthree]
    have hread := decodeFrom_three position rest (Nat.not_lt.mp htwo) hthree (by omega)
    rwa [hc] at hread
  · rw [utf8Bytes, if_neg hone, if_neg htwo, if_neg hthree]
    have hread := decodeFrom_four position rest (Nat.not_lt.mp hthree) (by omega)
    rwa [hc] at hread

end

/-! ## Texts -/

theorem decodeFrom_utf8Encode (position : Nat) (t : Text) :
    utf8DecodeFrom position none (utf8Encode t) = .ok t := by
  induction t generalizing position with
  | nil => rfl
  | cons c cs ih =>
    have hbytes : utf8Encode (c :: cs) = utf8Bytes c ++ utf8Encode cs := rfl
    rw [hbytes, decodeFrom_utf8Bytes, ih]
    rfl

/-- The bytes of a text are read as that text. -/
theorem utf8Decode_utf8Encode (t : Text) : utf8Decode (utf8Encode t) = .ok t :=
  decodeFrom_utf8Encode 0 t

end LineScript.Text
