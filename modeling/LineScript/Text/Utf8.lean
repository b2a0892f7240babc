import LineScript.Text.Numeral
import LineScript.Text.Quoted

set_option autoImplicit false

/-!
# Text: UTF-8

Characters as sequences of one to four bytes: a lead byte that says how many
bytes follow, and continuation bytes of six bits each.  The first continuation
byte has a narrower range after some lead bytes, which rules out overlong forms,
surrogates and code points past the last one.

Decoding reads byte by byte and keeps the character that it is in the middle of,
so an error can say which bytes are to blame.
-/

namespace LineScript.Text

/-- The number `n` reduced to a byte. -/
def byte (n : Nat) : UInt8 := UInt8.ofNat n

/-- The bytes of a character. -/
def utf8Bytes (c : Char) : List UInt8 :=
  let n := c.toNat
  if n < 0x80 then [byte n]
  else if n < 0x800 then [byte (0xC0 + n / 64), byte (0x80 + n % 64)]
  else if n < 0x10000 then
    [byte (0xE0 + n / 4096), byte (0x80 + n / 64 % 64), byte (0x80 + n % 64)]
  else
    [byte (0xF0 + n / 262144), byte (0x80 + n / 4096 % 64), byte (0x80 + n / 64 % 64),
      byte (0x80 + n % 64)]

/-- The bytes of a text. -/
def utf8Encode (t : Text) : List UInt8 := t.flatMap utf8Bytes

/-! ## Errors -/

/-- Why bytes are not the encoding of a text. -/
inductive Utf8Reason where
  | invalidStart
  | invalidContinuation
  | unexpectedEnd
  deriving DecidableEq, Repr, Inhabited

/-- The bytes that are to blame, by the position and value of the first and by
their number, and why. -/
structure Utf8Error where
  position : Nat
  first : UInt8
  length : Nat
  reason : Utf8Reason
  deriving DecidableEq, Repr, Inhabited

/-- The words for a reason. -/
def Utf8Reason.message : Utf8Reason → Text
  | .invalidStart => "invalid start byte".toList
  | .invalidContinuation => "invalid continuation byte".toList
  | .unexpectedEnd => "unexpected end of data".toList

/-- What an error is reported as. -/
def Utf8Error.message (e : Utf8Error) : Text :=
  let place :=
    if e.length = 1 then
      "byte 0x".toList ++ hexadecimal 2 e.first.toNat ++ " in position ".toList
        ++ ofNat e.position
    else
      "bytes in position ".toList ++ ofNat e.position ++ ['-']
        ++ ofNat (e.position + e.length - 1)
  "'utf-8' codec can't decode ".toList ++ place ++ ": ".toList ++ e.reason.message

/-! ## Decoding -/

/-- A character of which some bytes have been read. -/
structure Pending where
  /-- the position of the lead byte -/
  start : Nat
  lead : UInt8
  /-- the bits read so far -/
  bits : Nat
  /-- the continuation bytes still to come after the next one -/
  after : Nat
  /-- the range of the next byte -/
  low : Nat
  high : Nat
  deriving DecidableEq, Repr, Inhabited

/-- What a lead byte opens; none if it opens nothing. -/
def Pending.ofLead? (start : Nat) (lead : UInt8) : Option Pending :=
  let n := lead.toNat
  if n < 0xC2 then none
  else if n < 0xE0 then some ⟨start, lead, n - 0xC0, 0, 0x80, 0xBF⟩
  else if n < 0xF0 then
    some ⟨start, lead, n - 0xE0, 1, if n = 0xE0 then 0xA0 else 0x80,
      if n = 0xED then 0x9F else 0xBF⟩
  else if n < 0xF5 then
    some ⟨start, lead, n - 0xF0, 2, if n = 0xF0 then 0x90 else 0x80,
      if n = 0xF4 then 0x8F else 0xBF⟩
  else none

/-- The error of a character that breaks off at a position. -/
def Pending.error (p : Pending) (position : Nat) (reason : Utf8Reason) : Utf8Error :=
  ⟨p.start, p.lead, position - p.start, reason⟩

/-- The bits with those of one more continuation byte. -/
def Pending.extend (p : Pending) (b : UInt8) : Nat := p.bits * 64 + (b.toNat - 0x80)

/-- Decode the bytes from a position on, in the middle of a character or not. -/
def utf8DecodeFrom (position : Nat) : Option Pending → List UInt8 → Except Utf8Error Text
  | none, [] => .ok []
  | some p, [] => .error (p.error position .unexpectedEnd)
  | none, b :: rest =>
    if b.toNat < 0x80 then do
      return Char.ofNat b.toNat :: (← utf8DecodeFrom (position + 1) none rest)
    else match Pending.ofLead? position b with
      | some p => utf8DecodeFrom (position + 1) (some p) rest
      | none => .error ⟨position, b, 1, .invalidStart⟩
  | some p, b :: rest =>
    if p.low ≤ b.toNat ∧ b.toNat ≤ p.high then
      if p.after = 0 then do
        return Char.ofNat (p.extend b) :: (← utf8DecodeFrom (position + 1) none rest)
      else
        utf8DecodeFrom (position + 1)
          (some { p with bits := p.extend b, after := p.after - 1, low := 0x80, high := 0xBF }) rest
    else .error (p.error position .invalidContinuation)

/-- Decode bytes. -/
def utf8Decode (bytes : List UInt8) : Except Utf8Error Text := utf8DecodeFrom 0 none bytes

/-! ## Line ends -/

/-- The text with every line end written as a line feed. -/
def unifyLineEnds : Text → Text
  | [] => []
  | '\r' :: '\n' :: rest => '\n' :: unifyLineEnds rest
  | '\r' :: rest => '\n' :: unifyLineEnds rest
  | c :: rest => c :: unifyLineEnds rest

end LineScript.Text
