/-
DomScript.Html.Reference — character references.

A reference starts with an ampersand and names a character or gives its code point in decimal or
hexadecimal digits. Some names are also read without their semicolon, except in an attribute value
where a letter, a digit or an equals sign follows. What is no reference stands for itself.
-/

namespace DomScript.Html

/-! ## Names -/

/-- The named characters. -/
def namedCharacters : List (List Char × Char) :=
  [("amp".toList, '&'), ("lt".toList, '<'), ("gt".toList, '>'), ("quot".toList, '"'),
    ("nbsp".toList, '\u00a0'), ("copy".toList, '\u00a9'), ("hellip".toList, '\u2026'),
    ("emsp".toList, '\u2003')]

/-- The names that are read without a semicolon too. -/
def bareNames : List (List Char) :=
  ["amp", "lt", "gt", "quot", "nbsp", "copy"].map String.toList

/-! ## Numbers -/

/-- The value of a digit in base 10 or, if `hex`, in base 16. -/
def digitValue? (hex : Bool) (c : Char) : Option Nat :=
  let n := c.toNat
  if '0'.toNat ≤ n && n ≤ '9'.toNat then some (n - '0'.toNat)
  else if hex && 'a'.toNat ≤ n && n ≤ 'f'.toNat then some (n - 'a'.toNat + 10)
  else if hex && 'A'.toNat ≤ n && n ≤ 'F'.toNat then some (n - 'A'.toNat + 10)
  else none

/-- Read digits onto `value`: the number, and how many digits there were. -/
def readDigits (hex : Bool) (value : Nat) : List Char → Nat × Nat
  | [] => (value, 0)
  | c :: cs =>
    match digitValue? hex c with
    | none => (value, 0)
    | some d =>
      let (n, count) := readDigits hex (value * (if hex then 16 else 10) + d) cs
      (n, count + 1)

/-- What the code points 80 to 9F mean in a reference: the characters that a common eight-bit
encoding has there, or themselves. -/
def windowsCharacters : List Nat :=
  [0x20AC, 0x81, 0x201A, 0x0192, 0x201E, 0x2026, 0x2020, 0x2021, 0x02C6, 0x2030, 0x0160, 0x2039,
    0x0152, 0x8D, 0x017D, 0x8F, 0x90, 0x2018, 0x2019, 0x201C, 0x201D, 0x2022, 0x2013, 0x2014,
    0x02DC, 0x2122, 0x0161, 0x203A, 0x0153, 0x9D, 0x017E, 0x0178]

/-- The character of a numeric reference. -/
def numberedCharacter (n : Nat) : Char :=
  if n == 0 || 0x10FFFF < n || (0xD800 ≤ n && n ≤ 0xDFFF) then '\ufffd'
  else if 0x80 ≤ n && n ≤ 0x9F then Char.ofNat (windowsCharacters.getD (n - 0x80) n)
  else Char.ofNat n

/-! ## References -/

/-- Read a number sign's reference, without `&#`: the character and how much of the text it
takes. -/
def readNumber? (cs : List Char) : Option (Char × Nat) :=
  let (hex, mark) := match cs with
    | 'x' :: _ => (true, 1)
    | 'X' :: _ => (true, 1)
    | _ => (false, 0)
  match readDigits hex 0 (cs.drop mark) with
  | (_, 0) => none
  | (n, count) =>
    let semicolon := if (cs.drop (mark + count)).head? == some ';' then 1 else 0
    some (numberedCharacter n, mark + count + semicolon)

/-- Whether a text begins with a numeric reference that lacks its semicolon. -/
def beginsUnclosedNumber : List Char → Bool
  | '&' :: '#' :: cs => (readNumber? cs).any fun (_, taken) => (cs.take taken).getLast? != some ';'
  | _ => false

/-- Whether a name without its semicolon stays text because of what follows it. -/
def bareNameIsText (inAttribute : Bool) (next : Option Char) : Bool :=
  inAttribute && next.any fun c => c == '=' || c.isAlphanum

/-- Read a name, without the ampersand. -/
def readName? (inAttribute : Bool) (cs : List Char) : Option (Char × Nat) :=
  namedCharacters.findSome? fun (name, c) =>
    if name.isPrefixOf cs then
      let next := (cs.drop name.length).head?
      if next == some ';' then some (c, name.length + 1)
      else if bareNames.contains name && !bareNameIsText inAttribute next then
        some (c, name.length)
      else none
    else none

/-- Read the reference whose ampersand stands before `cs`. -/
def readReference? (inAttribute : Bool) : List Char → Option (Char × Nat)
  | '#' :: cs => (readNumber? cs).map fun (c, taken) => (c, taken + 1)
  | cs => readName? inAttribute cs

/-- Replace references, with `pending` characters of the last one still to pass over. -/
def resolveFrom (inAttribute : Bool) : Nat → List Char → List Char
  | _, [] => []
  | pending + 1, _ :: cs => resolveFrom inAttribute pending cs
  | 0, c :: cs =>
    if c == '&' then
      match readReference? inAttribute cs with
      | some (r, taken) => r :: resolveFrom inAttribute taken cs
      | none => c :: resolveFrom inAttribute 0 cs
    else c :: resolveFrom inAttribute 0 cs

/-- A text with its references replaced. -/
def resolve (inAttribute : Bool) (cs : List Char) : List Char :=
  resolveFrom inAttribute 0 cs

end DomScript.Html
