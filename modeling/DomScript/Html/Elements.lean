/-
DomScript.Html.Elements — what the parser knows about element names.

Groups of names that open, close or stop at each other, and the stack of open elements with the
questions that the rules ask of it.
-/
import DomScript.Document.Place

namespace DomScript.Html

/-! ## Groups of names -/

/-- Headings, which close each other. -/
def headings : List String :=
  ["h1", "h2", "h3", "h4", "h5", "h6"]

/-- Elements that belong into the head and have no content. -/
def headVoids : List String :=
  ["base", "basefont", "bgsound", "link", "meta"]

/-- Elements that are read by the rules of the head wherever they stand. -/
def headContent : List String :=
  headVoids ++ ["noframes", "script", "style", "template", "title"]

/-- Elements without content that stand for something on the line. -/
def bodyVoids : List String :=
  ["area", "br", "embed", "img", "input", "keygen", "wbr"]

/-- Elements without content that describe what is around them. -/
def mediaParts : List String :=
  ["param", "source", "track"]

/-- Elements that end an open paragraph, are closed by name and hold back other end tags. -/
def blocks : List String :=
  ["address", "article", "aside", "blockquote", "center", "details", "dir", "div", "dl", "fieldset",
    "figcaption", "figure", "footer", "header", "hgroup", "main", "menu", "nav", "ol", "section",
    "summary", "ul"]

/-- Elements whose end tag closes what is open inside them. -/
def closedByName : List String :=
  blocks ++ ["button", "dialog", "listing", "pre", "search"]

/-- The parts of a table that may stand only in their place. -/
def tableParts : List String :=
  ["caption", "col", "colgroup", "tbody", "td", "tfoot", "th", "thead", "tr"]

/-- The sections of a table, which hold its rows. -/
def tableSections : List String :=
  ["tbody", "tfoot", "thead"]

/-- The elements of a table that hold other parts of it, and no text. -/
def tableContainers : List String :=
  ["table", "tbody", "tfoot", "thead", "tr"]

/-- The cells of a row. -/
def cells : List String :=
  ["td", "th"]

/-- Elements that an end tag from within does not reach through. -/
def special : List String :=
  headContent ++ headings ++ blocks ++ tableParts ++
    ["applet", "area", "body", "br", "button", "dd", "dt", "embed", "form", "frame", "frameset",
      "head", "hr", "html", "iframe", "img", "input", "isindex", "keygen", "li", "listing",
      "marquee", "noembed", "noscript", "object", "p", "param", "plaintext", "pre", "select",
      "source", "table", "textarea", "track", "wbr", "xmp"]

/-- Elements that end by themselves when something around them is closed. -/
def impliedEnds : List String :=
  ["dd", "dt", "li", "optgroup", "option", "p", "rb", "rp", "rt", "rtc"]

/-! ## Scopes -/

/-- The elements at which a search for an open element stops. -/
inductive Scope where
  | default
  | listItem
  | button
  | table
  | select
  deriving DecidableEq

/-- Whether a search in a scope stops at this name. -/
def Scope.stopsAt (s : Scope) (name : String) : Bool :=
  let common := ["applet", "caption", "html", "marquee", "object", "table", "td", "template", "th"]
  match s with
  | .default => common.contains name
  | .listItem => common.contains name || name == "ol" || name == "ul"
  | .button => common.contains name || name == "button"
  | .table => ["html", "table", "template"].contains name
  | .select => !(["optgroup", "option"].contains name)

/-! ## Open elements -/

/-- An open element: its node, its name, and the node that its content goes to, which for a template
is a fragment. -/
structure OpenElement where
  id : NodeId
  name : String
  inside : NodeId
  deriving DecidableEq

/-- The open elements, innermost first. -/
abbrev OpenElements := List OpenElement

namespace OpenElements

/-- Whether an element that satisfies `p` is open within a scope. -/
def anyInScope (scope : Scope) (p : OpenElement → Bool) : OpenElements → Bool
  | [] => false
  | e :: outer => p e || (!scope.stopsAt e.name && anyInScope scope p outer)

/-- Whether an element with one of these names is open within a scope. -/
def hasInScope (scope : Scope) (names : List String) (es : OpenElements) : Bool :=
  es.anyInScope scope fun e => names.contains e.name

/-- Whether an element with this name is open at all. -/
def has (es : OpenElements) (name : String) : Bool :=
  es.any (·.name == name)

/-- Whether the innermost element has one of these names. -/
def currentIs (es : OpenElements) (names : List String) : Bool :=
  es.head?.any fun e => names.contains e.name

/-- Close elements from the inside until one of these names is innermost. -/
def closeTo (names : List String) (es : OpenElements) : OpenElements :=
  es.dropWhile fun e => !names.contains e.name

/-- Close elements from the inside through the first with one of these names. -/
def closeThrough (names : List String) (es : OpenElements) : OpenElements :=
  (closeTo names es).drop 1

/-- Close the elements that end by themselves, but for those with the names `kept`. -/
def closeImplied (kept : List String) (es : OpenElements) : OpenElements :=
  es.dropWhile fun e => impliedEnds.contains e.name && !kept.contains e.name

/-- Close an element that is in scope, with what ends by itself before it. -/
def closeNamed (name : String) (es : OpenElements) : OpenElements :=
  closeThrough [name] (closeImplied [name] es)

/-- Close an open paragraph. -/
def closeParagraph (es : OpenElements) : OpenElements :=
  if es.hasInScope .button ["p"] then closeNamed "p" es else es

/-- Whether an item of a list with one of these names is closed by another one: no special element
but an address, a division or a paragraph stands between. -/
def openItem? (names : List String) : OpenElements → Option String
  | [] => none
  | e :: outer =>
    if names.contains e.name then some e.name
    else if special.contains e.name && !(["address", "div", "p"].contains e.name) then none
    else openItem? names outer

/-- Close what an end tag without a rule of its own closes: through the nearest element with its
name, unless a special element stands before that. -/
def closeOrdinary (name : String) (all : OpenElements) : OpenElements → OpenElements
  | [] => all
  | e :: outer =>
    if e.name == name then outer
    else if special.contains e.name then all
    else closeOrdinary name all outer

/-- Where content goes that may not stand in a table: into the innermost template or in front of the
innermost table, whichever is open further inside, and else to the end of the page. -/
def fosterPlace : OpenElements → Place
  | [] => .inside Document.root
  | [e] => .inside e.inside
  | e :: outer =>
    if e.name == "template" then .inside e.inside
    else if e.name == "table" then .before e.id
    else fosterPlace outer

end OpenElements

end DomScript.Html
