/-
DomScript.Html.Page — a parser of HTML pages.

Tokens are read and treated in turn, since what a tag opens decides how the characters behind it
are read. Every page gets its `html`, `head` and `body` elements. Nodes are made in the order of
their markup and told in document order at the end.

Sessions and the command line take any parser, and nothing is proved about this one. It is there to
be handed to them where a program is put together (`DomScript.Main`). It covers a part of HTML only:
no foreign content (SVG, MathML), no framesets, no treatment of NUL characters, and eight of the
named character references.
-/
import DomScript.Document.Copy
import DomScript.Html.Rules

namespace DomScript.Html

/-- Whether a token closes the script that was being read. -/
def closesScript (lexing : Lexing) : Option Token → Bool
  | some (.endTag _) => lexing == .script
  | _ => false

/-- Read and treat the rest of a page. What follows a script counts as a new input, so a byte order
mark is dropped there too. A step takes a character at least, so the length of the text bounds the
rounds. -/
def construct : Nat → Construction → List Char → Construction
  | 0, c, _ => c
  | _ + 1, c, [] => c.finish
  | fuel + 1, c, ch :: cs =>
    let r := Reading.next c.lexing (ch :: cs)
    let rest := if closesScript c.lexing r.token then dropByteOrderMark r.rest else r.rest
    construct fuel (c.receive r) rest

/-- The tree of a page, its nodes in the order of their markup. -/
def constructPage (html : String) : Document :=
  let cs := normalizeBreaks (dropByteOrderMark html.toList)
  (construct (cs.length + 1) .start cs).document

/-- The tree of a page. -/
def tree : PageParser := fun html =>
  (constructPage html).forest.map Prod.snd

end DomScript.Html
