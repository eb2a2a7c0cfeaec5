/-
DomScript.Html.Construction — a page under construction.

The nodes met so far, the stack of open elements, and what the rules remember between tokens. The
operations here insert nodes where content goes at the moment and open or close elements; which of
them a token calls for is decided elsewhere.
-/
import DomScript.Html.Formatting
import DomScript.Html.Token

namespace DomScript.Html

/-! ## State -/

/-- Where the parser stands on the page. -/
inductive Mode where
  | initial
  | beforeHtml
  | beforeHead
  | inHead
  | afterHead
  | inBody
  | text
  | inTable
  | inCaption
  | inColumnGroup
  | inTableBody
  | inRow
  | inCell
  | inSelect
  | inSelectInTable
  | inTemplate
  | afterBody
  | afterAfterBody
  deriving DecidableEq

/-- A page under construction. -/
structure Construction where
  document : Document
  /-- The open elements, innermost first. -/
  stack : OpenElements
  mode : Mode
  /-- The mode to return to after the text of an element. -/
  resume : Mode
  lexing : Lexing
  /-- The head element, once there is one. -/
  head : Option OpenElement
  /-- The formatting elements, latest first. -/
  formatting : FormattingList
  /-- The form element that is open outside templates. -/
  form : Option NodeId
  /-- The mode for the content of each open template, innermost first. -/
  templateModes : List Mode
  /-- Whether the page is loose; then a table does not end a paragraph. -/
  loose : Bool
  /-- Whether a line feed that comes next is dropped. -/
  dropsLineFeed : Bool
  /-- Text met between the parts of a table, which waits for the next token. -/
  pending : List Char
  /-- Whether what would go between the parts of a table goes elsewhere. -/
  fostering : Bool

namespace Construction

/-- The page before its first token. -/
def start : Construction where
  document := .empty
  stack := []
  mode := .initial
  resume := .initial
  lexing := .markup
  head := none
  formatting := []
  form := none
  templateModes := []
  loose := false
  dropsLineFeed := false
  pending := []
  fostering := false

/-- Whether one of these is the name of the innermost element. -/
def currentIs (c : Construction) (names : List String) : Bool :=
  c.stack.currentIs names

/-- Whether a template is open. -/
def hasTemplate (c : Construction) : Bool :=
  c.stack.has "template"

/-- Go on in another mode. -/
def enter (c : Construction) (mode : Mode) : Construction :=
  { c with mode }

/-- Change the open elements. -/
def mapStack (c : Construction) (f : OpenElements → OpenElements) : Construction :=
  { c with stack := f c.stack }

/-- Close the innermost element. -/
def pop (c : Construction) : Construction :=
  c.mapStack (·.drop 1)

/-- Close an open paragraph. -/
def closeParagraph (c : Construction) : Construction :=
  c.mapStack (·.closeParagraph)

/-! ## Inserting -/

/-- Where the content of an open element goes. -/
def placeIn (c : Construction) (e : OpenElement) : Place :=
  if c.fostering && tableContainers.contains e.name then c.stack.fosterPlace
  else .inside e.inside

/-- Where content goes now. -/
def place (c : Construction) : Place :=
  match c.stack with
  | [] => .inside Document.root
  | e :: _ => c.placeIn e

/-- Do something with content that may not stand between the parts of a table. -/
def foster (c : Construction) (f : Construction → Construction) : Construction :=
  { f { c with fostering := true } with fostering := false }

/-- Add a comment at a place. -/
def commentAt (c : Construction) (place : Place) (text : String) : Construction :=
  { c with document := c.document.insert place (.comment text) }

/-- Add a comment here. -/
def comment (c : Construction) (text : String) : Construction :=
  c.commentAt c.place text

/-- Add a comment at the end of the page. -/
def commentAtEnd (c : Construction) (text : String) : Construction :=
  c.commentAt (.inside Document.root) text

/-- Add text here. -/
def text (c : Construction) (chars : List Char) : Construction :=
  if chars.isEmpty then c
  else { c with document := c.document.insertText c.place (.ofList chars) }

/-- Add an element here and open it. The content of a template goes to a fragment below it. -/
def element (c : Construction) (name : String) (attributes : List Attribute) : Construction :=
  let id := c.document.size
  let document := c.document.insert c.place (.element ⟨name⟩ attributes)
  if name == "template" then
    let inside := document.size
    { c with document := document.append id .fragment, stack := ⟨id, name, inside⟩ :: c.stack }
  else { c with document, stack := ⟨id, name, id⟩ :: c.stack }

/-- Add an element that has no content. -/
def void (c : Construction) (name : String) (attributes : List Attribute) : Construction :=
  (c.element name attributes).pop

/-- Add an element whose content is text, and read that text next. -/
def textElement (c : Construction) (name : String) (attributes : List Attribute)
    (lexing : Lexing) : Construction :=
  { c.element name attributes with resume := c.mode, mode := .text, lexing }

/-- Add the attributes that an element does not have yet. -/
def addAttributes (c : Construction) (id : NodeId) (attributes : List Attribute) : Construction :=
  let extend : Content → Content
    | .element tag old => .element tag (attributes.foldl (fun found a => addAttribute a found) old)
    | other => other
  { c with document := c.document.modifyContent id extend }

/-! ## Choosing a mode -/

/-- The mode for a select element with these elements around it. -/
def selectMode : OpenElements → Mode
  | [] => .inSelect
  | e :: outer =>
    if e.name == "template" then .inSelect
    else if e.name == "table" then .inSelectInTable
    else selectMode outer

/-- The mode that the open elements call for. -/
def modeFor (c : Construction) : OpenElements → Mode
  | [] => .inBody
  | e :: outer =>
    if e.name == "select" then selectMode outer
    else if cells.contains e.name && !outer.isEmpty then .inCell
    else if e.name == "tr" then .inRow
    else if tableSections.contains e.name then .inTableBody
    else if e.name == "caption" then .inCaption
    else if e.name == "colgroup" then .inColumnGroup
    else if e.name == "table" then .inTable
    else if e.name == "template" then c.templateModes.headD .inBody
    else if e.name == "head" && !outer.isEmpty then .inHead
    else if e.name == "body" then .inBody
    else if e.name == "html" then (if c.head.isNone then .beforeHead else .afterHead)
    else modeFor c outer

/-- Enter the mode that the open elements call for. -/
def resetMode (c : Construction) : Construction :=
  c.enter (c.modeFor c.stack)

end Construction

end DomScript.Html
