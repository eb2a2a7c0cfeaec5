/-
DomScript.VariableNames — the sequence of generated variable names.

Behind a fixed stem the names run through all words over `a` to `z`, shorter words first and words
of one length in alphabetical order: `a, b, ..., z, aa, ab, ...`. The state is the last word given
out, as its letters counted from the end, so that advancing is an odometer on the front of a list.
-/

namespace DomScript

/-- A letter of a variable name, by its place in the alphabet. -/
abbrev Letter := Fin 26

/-- The character of a letter. -/
def Letter.toChar (l : Letter) : Char :=
  Char.ofNat ('a'.toNat + l.val)

/-- The sequence of names: the stem of every name, and the last word given out, last letter first;
the word is empty before the first name. -/
structure VariableNames where
  stem : String
  letters : List Letter
  deriving DecidableEq

namespace VariableNames

/-- A sequence that has given out no name. -/
def new (stem : String) : VariableNames :=
  ⟨stem, []⟩

/-- The word after a given one, both written last letter first. -/
def next : List Letter → List Letter
  | [] => [0]
  | l :: ls => if h : l.val + 1 < 26 then ⟨l.val + 1, h⟩ :: ls else 0 :: next ls

/-- The characters of a word. -/
def word (letters : List Letter) : List Char :=
  letters.reverse.map Letter.toChar

/-- The name of the present word. -/
def name (v : VariableNames) : String :=
  v.stem ++ .ofList (word v.letters)

/-- Move on to the next word. -/
def advance (v : VariableNames) : VariableNames :=
  { v with letters := next v.letters }

/-- A fresh name, and the sequence after it. -/
def generate (v : VariableNames) : String × VariableNames :=
  (v.advance.name, v.advance)

/-- The last name given out, under the present stem. -/
def current? (v : VariableNames) : Option String :=
  if v.letters.isEmpty then none else some v.name

/-- Start again before the first word. -/
def reset (v : VariableNames) : VariableNames :=
  { v with letters := [] }

/-- Change the stem of the names to come. -/
def setStem (v : VariableNames) (stem : String) : VariableNames :=
  { v with stem }

/-- The next `n` names, and the sequence after them. -/
def take : Nat → VariableNames → List String × VariableNames
  | 0, v => ([], v)
  | n + 1, v =>
    let (names, after) := take n v.advance
    (v.advance.name :: names, after)

/-- The sequence after `n` more names. -/
def skip : Nat → VariableNames → VariableNames
  | 0, v => v
  | n + 1, v => skip n v.advance

end VariableNames

end DomScript
