/-
DomScript.Text.Utf8 — text as bytes, and bytes as text.

`encode` writes a text as UTF-8. `decode` reads any bytes: a well-formed sequence gives its
character, and each longest part that could still have begun one (or, failing that, one byte) gives
the replacement character U+FFFD. Second bytes are limited after some leading bytes, which rules out
overlong forms, surrogates and code points beyond U+10FFFF.
-/

namespace DomScript.Text.Utf8

/-! ## Writing -/

/-- The bytes of a text. -/
def encode (cs : List Char) : List UInt8 :=
  cs.flatMap String.utf8EncodeChar

/-! ## Reading -/

/-- What a leading byte asks for: how many bytes must follow, the least and the greatest value of
the first of them, and the bits of the leading byte itself. -/
structure Lead where
  tails : Nat
  least : Nat
  greatest : Nat
  bits : Nat
  deriving DecidableEq

/-- The requirements of a leading byte; none for a byte that can begin nothing. -/
def lead? (b : Nat) : Option Lead :=
  if b ≤ 0x7F then some ⟨0, 0x80, 0xBF, b⟩
  else if b < 0xC2 then none
  else if b ≤ 0xDF then some ⟨1, 0x80, 0xBF, b - 0xC0⟩
  else if b == 0xE0 then some ⟨2, 0xA0, 0xBF, 0⟩
  else if b == 0xED then some ⟨2, 0x80, 0x9F, 0x0D⟩
  else if b ≤ 0xEF then some ⟨2, 0x80, 0xBF, b - 0xE0⟩
  else if b == 0xF0 then some ⟨3, 0x90, 0xBF, 0⟩
  else if b ≤ 0xF3 then some ⟨3, 0x80, 0xBF, b - 0xF0⟩
  else if b == 0xF4 then some ⟨3, 0x80, 0x8F, 4⟩
  else none

/-- Read `tails` following bytes onto `bits`: the code point, unless one is missing, and the number
of bytes that fitted. -/
def readTails : Nat → Nat → Nat → Nat → List UInt8 → Option Nat × Nat
  | 0, _, _, bits, _ => (some bits, 0)
  | _ + 1, _, _, _, [] => (none, 0)
  | tails + 1, least, greatest, bits, b :: bs =>
    if least ≤ b.toNat && b.toNat ≤ greatest then
      let (point, taken) := readTails tails 0x80 0xBF (bits * 64 + (b.toNat - 0x80)) bs
      (point, taken + 1)
    else (none, 0)

/-- The replacement character. -/
def replacement : Char := '\ufffd'

/-- The first character of non-empty bytes, and how many bytes after the first one it covers. -/
def readChar (b : UInt8) (bs : List UInt8) : Char × Nat :=
  match lead? b.toNat with
  | none => (replacement, 0)
  | some l =>
    match readTails l.tails l.least l.greatest l.bits bs with
    | (some point, taken) => (Char.ofNat point, taken)
    | (none, taken) => (replacement, taken)

/-- Read on, with `pending` bytes of the last character still to pass over. -/
def decodeFrom : Nat → List UInt8 → List Char
  | _, [] => []
  | pending + 1, _ :: bs => decodeFrom pending bs
  | 0, b :: bs => (readChar b bs).1 :: decodeFrom (readChar b bs).2 bs

/-- The text of any bytes. -/
def decode (bs : List UInt8) : List Char :=
  decodeFrom 0 bs

end DomScript.Text.Utf8
