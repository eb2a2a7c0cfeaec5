/-
DomScript.Text.Spelling — how texts and names are spelled in a script.

`literalBody` is the inside of a double-quoted string literal. Line breaks vanish, any other run of
ASCII blanks becomes one space, and a double quote is written with one backslash, also where the
text already has that backslash. The alternatives are tried in this order at each place, so a run
that starts with a line break loses it before the rest collapses. Backslashes elsewhere and all
other spaces of Unicode are kept.

`camelCase` makes a property name from a dashed one: the name is cut at its dashes, every part but
the first is capitalised, and the parts are joined, so `list-style-type` gives `listStyleType`.
-/
import DomScript.Text.Blank
import DomScript.Text.UpperCase

namespace DomScript.Text

/-! ## Substitution -/

/-- What a rule takes from the front of a text: a number of characters and their replacement. -/
structure Match where
  taken : Nat
  replacement : List Char
  deriving DecidableEq

/-- Scan with `pending` characters of the last match still to pass over. -/
def substituteFrom (rule : List Char → Option Match) : Nat → List Char → List Char
  | _, [] => []
  | pending + 1, _ :: cs => substituteFrom rule pending cs
  | 0, c :: cs =>
    match rule (c :: cs) with
    | none => c :: substituteFrom rule 0 cs
    | some m => m.replacement ++ substituteFrom rule (m.taken - 1) cs

/-- Replace every leftmost match of `rule`; the matches do not overlap. -/
def substitute (rule : List Char → Option Match) (cs : List Char) : List Char :=
  substituteFrom rule 0 cs

/-! ## Literals -/

/-- The replacement that applies at the front of a text. -/
def literalRule : List Char → Option Match
  | [] => none
  | c :: cs =>
    if isLineBreak c then some ⟨1, []⟩
    else if isAsciiBlank c then some ⟨1 + (cs.takeWhile isAsciiBlank).length, [' ']⟩
    else if c == '\\' && cs.head? == some '"' then some ⟨2, ['\\', '"']⟩
    else if c == '"' then some ⟨1, ['\\', '"']⟩
    else none

/-- The body of the literal for a text. -/
def literalBody (cs : List Char) : List Char :=
  substitute literalRule cs

/-- The body of the literal for a string. -/
def escape (s : String) : String :=
  .ofList (literalBody s.toList)

/-! ## Property names -/

/-- Upper-case the first character and keep the others. -/
def capitalize : List Char → List Char
  | [] => []
  | c :: cs => upperCase c ++ cs

/-- The camel-cased form of a text. -/
def camelChars (cs : List Char) : List Char :=
  match splitAll '-' cs with
  | [] => []
  | part :: parts => part ++ (parts.map capitalize).flatten

/-- The camel-cased form of a string. -/
def camelCase (s : String) : String :=
  .ofList (camelChars s.toList)

end DomScript.Text
