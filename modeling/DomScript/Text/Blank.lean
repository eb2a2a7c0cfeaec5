/-
DomScript.Text.Blank — the two notions of blank space, and trimming.

A text node is trimmed of every character that Unicode counts as White_Space, while only the five
blanks of ASCII collapse inside a written literal. Both classes are stated here, with the trimming
that the wider one governs.
-/

namespace DomScript.Text

/-! ## Classes -/

/-- The characters with the Unicode property White_Space. -/
def isWhiteSpace (c : Char) : Bool :=
  let n := c.toNat
  (0x09 ≤ n && n ≤ 0x0D) || n == 0x20 || n == 0x85 || n == 0xA0 || n == 0x1680 ||
    (0x2000 ≤ n && n ≤ 0x200A) || n == 0x2028 || n == 0x2029 || n == 0x202F || n == 0x205F ||
    n == 0x3000

/-- Tab, line feed, form feed, carriage return and space. -/
def isAsciiBlank (c : Char) : Bool :=
  c == '\t' || c == '\n' || c == '\x0c' || c == '\r' || c == ' '

/-- Line feed and carriage return. -/
def isLineBreak (c : Char) : Bool :=
  c == '\n' || c == '\r'

/-! ## Trimming -/

/-- Drop the White_Space in front. -/
def trimStart (cs : List Char) : List Char :=
  cs.dropWhile isWhiteSpace

/-- Drop the White_Space at the end. -/
def trimEnd (cs : List Char) : List Char :=
  (cs.reverse.dropWhile isWhiteSpace).reverse

/-- Drop the White_Space at both ends. -/
def trim (cs : List Char) : List Char :=
  trimEnd (trimStart cs)

/-! ## Splitting -/

/-- The parts of a text between the occurrences of `sep`: one more than there are separators. -/
def splitAll (sep : Char) : List Char → List (List Char)
  | [] => [[]]
  | c :: cs =>
    if c = sep then [] :: splitAll sep cs
    else
      match splitAll sep cs with
      | [] => [[c]]
      | part :: parts => (c :: part) :: parts

/-- What stands before and after the first `sep`, if there is one. -/
def splitFirst? (sep : Char) : List Char → Option (List Char × List Char)
  | [] => none
  | c :: cs =>
    if c = sep then some ([], cs)
    else (splitFirst? sep cs).map fun (before, after) => (c :: before, after)

end DomScript.Text
