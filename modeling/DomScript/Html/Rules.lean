/-
DomScript.Html.Rules — what each token does to a page under construction.

One function for each mode. A rule is done with its token, or it changes the mode and asks for the
token to be treated again. Text comes to the rules either all blank or without any blanks.
-/
import DomScript.Html.Adoption

namespace DomScript.Html

/-- The result of a rule: the token is used up, or it is to be treated again. -/
inductive Outcome where
  | done (c : Construction)
  | again (c : Construction)

namespace Construction

/-! ## Parts shared between modes -/

/-- A second start tag of `html` adds its attributes to the page. -/
def mergeHtml (c : Construction) (attributes : List Attribute) : Construction :=
  if c.hasTemplate then c
  else
    match c.stack.getLast? with
    | some e => c.addAttributes e.id attributes
    | none => c

/-- A second start tag of `body` adds its attributes to the body. -/
def mergeBody (c : Construction) (attributes : List Attribute) : Construction :=
  match c.stack.reverse with
  | _ :: e :: _ => if e.name == "body" && !c.hasTemplate then c.addAttributes e.id attributes else c
  | _ => c

/-- An element of the head, wherever it stands. -/
def headElement (c : Construction) (name : String) (attributes : List Attribute) : Construction :=
  if headVoids.contains name then c.void name attributes
  else if name == "template" then
    let c := (c.element name attributes).mark
    { c with mode := .inTemplate, templateModes := .inTemplate :: c.templateModes }
  else if name == "title" then c.textElement name attributes (.replaceable name)
  else if name == "script" then c.textElement name attributes .script
  else c.textElement name attributes (.raw name)

/-- Leave the innermost template, with everything inside it. -/
def leaveTemplate (c : Construction) : Construction :=
  { c.clearFormatting with
    stack := c.stack.closeThrough ["template"]
    templateModes := c.templateModes.drop 1 }.resetMode

/-- The end tag of a template. -/
def endTemplate (c : Construction) : Construction :=
  if c.hasTemplate then c.leaveTemplate else c

/-- The end of the input, where templates may still be open. -/
def endOfInput (c : Construction) : Outcome :=
  if c.hasTemplate then .again c.leaveTemplate else .done c

/-! ## Before the body -/

/-- The end tags that stand for more than themselves before the body. -/
def meaningfulEnds : List String :=
  ["body", "br", "head", "html"]

/-- Before the doctype: the page is loose unless a doctype comes first. -/
def initial (c : Construction) : Token → Outcome
  | .text chars =>
    if chars.all Text.isAsciiBlank then .done c
    else .again { c with loose := true, mode := .beforeHtml }
  | .comment text => .done (c.commentAtEnd text)
  | .doctype d =>
    .done
      { c with
        document := c.document.append Document.root (.doctype d.name)
        loose := d.isLoose
        mode := .beforeHtml }
  | _ => .again { c with loose := true, mode := .beforeHtml }

/-- Before the `html` element, which anything but blanks and comments implies. -/
def beforeHtml (c : Construction) (t : Token) : Outcome :=
  let implied := Outcome.again ((c.element "html" []).enter .beforeHead)
  match t with
  | .text chars => if chars.all Text.isAsciiBlank then .done c else implied
  | .comment text => .done (c.commentAtEnd text)
  | .doctype _ => .done c
  | .startTag name attributes =>
    if name == "html" then .done ((c.element name attributes).enter .beforeHead) else implied
  | .endTag name => if meaningfulEnds.contains name then implied else .done c
  | .endOfInput => implied

/-- Open the head. -/
def openHead (c : Construction) (attributes : List Attribute) : Construction :=
  let c := c.element "head" attributes
  { c with head := c.stack.head?, mode := .inHead }

/-- Before the head, which anything but blanks and comments implies. -/
def beforeHead (c : Construction) (t : Token) : Outcome :=
  let implied := Outcome.again (c.openHead [])
  match t with
  | .text chars => if chars.all Text.isAsciiBlank then .done c else implied
  | .comment text => .done (c.comment text)
  | .doctype _ => .done c
  | .startTag name attributes =>
    if name == "html" then .done (c.mergeHtml attributes)
    else if name == "head" then .done (c.openHead attributes)
    else implied
  | .endTag name => if meaningfulEnds.contains name then implied else .done c
  | .endOfInput => implied

/-- Inside the head, which ends at the first thing that does not belong there. -/
def inHead (c : Construction) (t : Token) : Outcome :=
  let after := c.pop.enter .afterHead
  match t with
  | .text chars => if chars.all Text.isAsciiBlank then .done (c.text chars) else .again after
  | .comment text => .done (c.comment text)
  | .doctype _ => .done c
  | .startTag name attributes =>
    if name == "html" then .done (c.mergeHtml attributes)
    else if headContent.contains name || name == "noscript" then
      .done (c.headElement name attributes)
    else if name == "head" then .done c
    else .again after
  | .endTag name =>
    if name == "head" then .done after
    else if name == "template" then .done c.endTemplate
    else if meaningfulEnds.contains name then .again after
    else .done c
  | .endOfInput => .again after

/-- Put an element into the head although the head is closed. -/
def lateHeadElement (c : Construction) (name : String) (attributes : List Attribute) :
    Construction :=
  match c.head with
  | none => c.headElement name attributes
  | some head =>
    { c with stack := head :: c.stack }.headElement name attributes
      |>.mapStack (·.filter (·.id != head.id))

/-- Between the head and the body, which anything of its own implies. -/
def afterHead (c : Construction) (t : Token) : Outcome :=
  let implied := Outcome.again ((c.element "body" []).enter .inBody)
  match t with
  | .text chars => if chars.all Text.isAsciiBlank then .done (c.text chars) else implied
  | .comment text => .done (c.comment text)
  | .doctype _ => .done c
  | .startTag name attributes =>
    if name == "html" then .done (c.mergeHtml attributes)
    else if name == "body" then .done ((c.element name attributes).enter .inBody)
    else if headContent.contains name then .done (c.lateHeadElement name attributes)
    else if name == "head" then .done c
    else implied
  | .endTag name =>
    if name == "template" then .done c.endTemplate
    else if name == "head" then .done c
    else if meaningfulEnds.contains name then implied
    else .done c
  | .endOfInput => implied

/-! ## The body -/

/-- Open an item of a list, which closes an open item with one of these names. -/
def openItem (c : Construction) (names : List String) (name : String)
    (attributes : List Attribute) : Construction :=
  let c :=
    match c.stack.openItem? names with
    | some item => c.mapStack (·.closeNamed item)
    | none => c
  c.closeParagraph.element name attributes

/-- Open a form, unless one is open. -/
def openForm (c : Construction) (attributes : List Attribute) : Construction :=
  if c.form.isSome && !c.hasTemplate then c
  else
    let c := c.closeParagraph.element "form" attributes
    if c.hasTemplate then c else { c with form := c.stack.head?.map OpenElement.id }

/-- Close the open form; elements that are open inside it stay open. -/
def closeForm (c : Construction) : Construction :=
  if c.hasTemplate then
    if c.stack.hasInScope .default ["form"] then c.mapStack (·.closeNamed "form") else c
  else
    match c.form with
    | none => c
    | some id =>
      let c := { c with form := none }
      if c.stack.anyInScope .default (·.id == id) then
        c.mapStack fun es => (es.closeImplied []).filter (·.id != id)
      else c

/-- The modes in which a select element is inside a table. -/
def tableModes : List Mode :=
  [.inTable, .inCaption, .inTableBody, .inRow, .inCell]

/-- A start tag in the body. -/
def startInBody (c : Construction) (name : String) (attributes : List Attribute) : Construction :=
  if name == "html" then c.mergeHtml attributes
  else if headContent.contains name then c.headElement name attributes
  else if name == "body" then c.mergeBody attributes
  else if blocks.contains name || ["dialog", "p", "search"].contains name then
    c.closeParagraph.element name attributes
  else if headings.contains name then
    let c := c.closeParagraph
    (if c.currentIs headings then c.pop else c).element name attributes
  else if name == "pre" || name == "listing" then
    { c.closeParagraph.element name attributes with dropsLineFeed := true }
  else if name == "form" then c.openForm attributes
  else if name == "li" then c.openItem ["li"] name attributes
  else if name == "dd" || name == "dt" then c.openItem ["dd", "dt"] name attributes
  else if name == "plaintext" then
    { c.closeParagraph.element name attributes with lexing := .plain }
  else if name == "button" then
    let c :=
      if c.stack.hasInScope .default ["button"] then c.mapStack (·.closeNamed "button") else c
    c.reopenFormatting.element name attributes
  else if name == "table" then
    ((if c.loose then c else c.closeParagraph).element name attributes).enter .inTable
  else if name == "a" then c.openAnchor attributes
  else if name == "nobr" then c.openUnbroken attributes
  else if plainFormatting.contains name then c.reopenFormatting.openFormatting name attributes
  else if embeddedObjects.contains name then (c.reopenFormatting.element name attributes).mark
  else if bodyVoids.contains name then c.reopenFormatting.void name attributes
  else if mediaParts.contains name then c.void name attributes
  else if name == "image" then c.reopenFormatting.void "img" attributes
  else if name == "hr" then c.closeParagraph.void name attributes
  else if name == "textarea" then
    { c.textElement name attributes (.replaceable name) with dropsLineFeed := true }
  else if name == "xmp" then
    c.closeParagraph.reopenFormatting.textElement name attributes (.raw name)
  else if ["iframe", "noembed", "noscript"].contains name then
    c.textElement name attributes (.raw name)
  else if name == "select" then
    (c.reopenFormatting.element name attributes).enter
      (if tableModes.contains c.mode then .inSelectInTable else .inSelect)
  else if name == "optgroup" || name == "option" then
    (if c.currentIs ["option"] then c.pop else c).reopenFormatting.element name attributes
  else if ["rb", "rp", "rt", "rtc"].contains name then
    let kept := if name == "rp" || name == "rt" then ["rtc"] else []
    let c := if c.stack.hasInScope .default ["ruby"] then c.mapStack (·.closeImplied kept) else c
    c.element name attributes
  else if tableParts.contains name || ["frame", "frameset", "head"].contains name then c
  else c.reopenFormatting.element name attributes

/-- Close the element with this name if it is in scope. -/
def closeInScope (c : Construction) (scope : Scope) (name : String) : Construction :=
  if c.stack.hasInScope scope [name] then c.mapStack (·.closeNamed name) else c

/-- An end tag in the body that leaves the mode alone. -/
def endInBody (c : Construction) (name : String) : Construction :=
  if name == "template" then c.endTemplate
  else if closedByName.contains name || name == "dd" || name == "dt" then
    c.closeInScope .default name
  else if embeddedObjects.contains name then
    if c.stack.hasInScope .default [name] then (c.mapStack (·.closeNamed name)).clearFormatting
    else c
  else if name == "form" then c.closeForm
  else if name == "p" then
    (if c.stack.hasInScope .button ["p"] then c else c.element name []).closeParagraph
  else if name == "li" then c.closeInScope .listItem name
  else if headings.contains name then
    if c.stack.hasInScope .default headings then
      c.mapStack fun es => (es.closeImplied []).closeThrough headings
    else c
  else if formattingElements.contains name then c.closeFormatting name
  else if name == "br" then c.reopenFormatting.void name []
  else c.mapStack fun es => es.closeOrdinary name es

/-- Text in the body. -/
def textInBody (c : Construction) (chars : List Char) : Construction :=
  c.reopenFormatting.text chars

/-- Inside the body, and inside most elements there. -/
def inBody (c : Construction) (t : Token) : Outcome :=
  match t with
  | .text chars => .done (c.textInBody chars)
  | .comment text => .done (c.comment text)
  | .doctype _ => .done c
  | .startTag name attributes => .done (c.startInBody name attributes)
  | .endTag name =>
    if name == "body" || name == "html" then
      if !c.stack.hasInScope .default ["body"] then .done c
      else if name == "html" then .again (c.enter .afterBody)
      else .done (c.enter .afterBody)
    else .done (c.endInBody name)
  | .endOfInput => c.endOfInput

/-- Inside an element whose content is text. -/
def inText (c : Construction) (t : Token) : Outcome :=
  let after := { c.pop with mode := c.resume, lexing := .markup }
  match t with
  | .text chars => .done (c.text chars)
  | .endTag _ => .done after
  | .endOfInput => .again after
  | _ => .done c

/-! ## Choices -/

/-- Inside a select element, where only its options, their groups and rules between them stand. -/
def inSelect (c : Construction) (t : Token) : Outcome :=
  let inScope := c.stack.hasInScope .select ["select"]
  let left := (c.mapStack (·.closeThrough ["select"])).resetMode
  match t with
  | .text chars => .done (c.text chars)
  | .comment text => .done (c.comment text)
  | .doctype _ => .done c
  | .startTag name attributes =>
    if name == "html" then .done (c.mergeHtml attributes)
    else if name == "option" then
      .done ((if c.currentIs ["option"] then c.pop else c).element name attributes)
    else if name == "optgroup" then
      let c := if c.currentIs ["option"] then c.pop else c
      let c := if c.currentIs ["optgroup"] then c.pop else c
      .done (c.element name attributes)
    else if name == "hr" then
      let c := if c.currentIs ["option"] then c.pop else c
      let c := if c.currentIs ["optgroup"] then c.pop else c
      .done (c.void name attributes)
    else if name == "select" then .done (if inScope then left else c)
    else if ["input", "keygen", "textarea"].contains name then
      if inScope then .again left else .done c
    else if name == "script" || name == "template" then .done (c.headElement name attributes)
    else .done c
  | .endTag name =>
    if name == "optgroup" then
      let c :=
        if c.currentIs ["option"] && c.pop.currentIs ["optgroup"] then c.pop else c
      .done (if c.currentIs ["optgroup"] then c.pop else c)
    else if name == "option" then .done (if c.currentIs ["option"] then c.pop else c)
    else if name == "select" then .done (if inScope then left else c)
    else if name == "template" then .done c.endTemplate
    else .done c
  | .endOfInput => c.endOfInput

/-- The names at which a select element inside a table ends. -/
def selectEnds : List String :=
  ["caption", "table", "tbody", "td", "tfoot", "th", "thead", "tr"]

/-- Inside a select element in a table, which the parts of the table end. -/
def inSelectInTable (c : Construction) (t : Token) : Outcome :=
  let left := (c.mapStack (·.closeThrough ["select"])).resetMode
  match t with
  | .startTag name _ => if selectEnds.contains name then .again left else c.inSelect t
  | .endTag name =>
    if !selectEnds.contains name then c.inSelect t
    else if c.stack.hasInScope .table [name] then .again left
    else .done c
  | _ => c.inSelect t

/-! ## Tables -/

/-- Close what is open inside one of these, or inside a template or the page. -/
def clearTo (c : Construction) (names : List String) : Construction :=
  c.mapStack (·.closeTo (names ++ ["html", "template"]))

/-- Open a part of a table after closing what is open inside its place. -/
def openPart (c : Construction) (inside : List String) (name : String)
    (attributes : List Attribute) (mode : Mode) : Construction :=
  ((c.clearTo inside).element name attributes).enter mode

/-- The end tags that mean nothing between the parts of a table. -/
def strayEnds : List String :=
  ["body", "caption", "col", "colgroup", "html", "tbody", "td", "tfoot", "th", "thead", "tr"]

/-- Whether the attributes of an input hide it. -/
def isHidden (attributes : List Attribute) : Bool :=
  attributes.any fun a => a.key == "type" && lowerName a.value.toList == "hidden"

/-- Directly inside a table, where missing sections are implied. Text waits there for what comes
next, and all that does not belong into a table goes elsewhere. -/
def inTable (c : Construction) (t : Token) : Outcome :=
  let closed := (c.mapStack (·.closeThrough ["table"])).resetMode
  let inScope := c.stack.hasInScope .table ["table"]
  match t with
  | .text chars =>
    if c.currentIs tableContainers then .done { c with pending := c.pending ++ chars }
    else .done (c.textInBody chars)
  | .comment text => .done (c.comment text)
  | .doctype _ => .done c
  | .startTag name attributes =>
    if name == "caption" then .done (c.openPart ["table"] name attributes .inCaption).mark
    else if name == "colgroup" then .done (c.openPart ["table"] name attributes .inColumnGroup)
    else if name == "col" then .again (c.openPart ["table"] "colgroup" [] .inColumnGroup)
    else if tableSections.contains name then
      .done (c.openPart ["table"] name attributes .inTableBody)
    else if cells.contains name || name == "tr" then
      .again (c.openPart ["table"] "tbody" [] .inTableBody)
    else if name == "table" then if inScope then .again closed else .done c
    else if ["script", "style", "template"].contains name then .done (c.headElement name attributes)
    else if name == "form" then
      if c.hasTemplate || c.form.isSome then .done c
      else
        let c := c.element name attributes
        .done { c with form := c.stack.head?.map OpenElement.id }.pop
    else if name == "input" && isHidden attributes then .done (c.void name attributes)
    else .done (c.foster (·.startInBody name attributes))
  | .endTag name =>
    if name == "table" then .done (if inScope then closed else c)
    else if strayEnds.contains name then .done c
    else if name == "template" then .done c.endTemplate
    else .done (c.foster (·.endInBody name))
  | .endOfInput => c.endOfInput

/-- Inside the caption of a table. -/
def inCaption (c : Construction) (t : Token) : Outcome :=
  let inScope := c.stack.hasInScope .table ["caption"]
  let left := c.mapStack fun es => (es.closeImplied []).closeThrough ["caption"]
  let closed := left.clearFormatting.enter .inTable
  match t with
  | .startTag name _ =>
    if tableParts.contains name then if inScope then .again closed else .done c else c.inBody t
  | .endTag name =>
    if name == "caption" then .done (if inScope then closed else c)
    else if name == "table" then if inScope then .again closed else .done c
    else if strayEnds.contains name then .done c
    else c.inBody t
  | _ => c.inBody t

/-- Inside a group of columns. -/
def inColumnGroup (c : Construction) (t : Token) : Outcome :=
  let isOpen := c.currentIs ["colgroup"]
  let closed := c.pop.enter .inTable
  let other := if isOpen then Outcome.again closed else .done c
  match t with
  | .text chars => if chars.all Text.isAsciiBlank then .done (c.text chars) else other
  | .comment text => .done (c.comment text)
  | .doctype _ => .done c
  | .startTag name attributes =>
    if name == "html" then .done (c.mergeHtml attributes)
    else if name == "col" then .done (c.void name attributes)
    else if name == "template" then .done (c.headElement name attributes)
    else other
  | .endTag name =>
    if name == "colgroup" then .done (if isOpen then closed else c)
    else if name == "col" then .done c
    else if name == "template" then .done c.endTemplate
    else other
  | .endOfInput => c.endOfInput

/-- Inside a section of a table, where a missing row is implied. -/
def inTableBody (c : Construction) (t : Token) : Outcome :=
  let closed := (c.clearTo tableSections).pop.enter .inTable
  let inScope := c.stack.hasInScope .table ["table", "tbody", "tfoot"]
  let leave := if inScope then Outcome.again closed else .done c
  match t with
  | .startTag name attributes =>
    if name == "tr" then .done (c.openPart tableSections name attributes .inRow)
    else if cells.contains name then .again (c.openPart tableSections "tr" [] .inRow)
    else if tableParts.contains name then leave
    else c.inTable t
  | .endTag name =>
    if tableSections.contains name then
      .done (if c.stack.hasInScope .table [name] then closed else c)
    else if name == "table" then leave
    else c.inTable t
  | _ => c.inTable t

/-- Inside a row of a table. -/
def inRow (c : Construction) (t : Token) : Outcome :=
  let closed := (c.clearTo ["tr"]).pop.enter .inTableBody
  let inScope := c.stack.hasInScope .table ["tr"]
  let leave := if inScope then Outcome.again closed else .done c
  match t with
  | .startTag name attributes =>
    if cells.contains name then .done (c.openPart ["tr"] name attributes .inCell).mark
    else if tableParts.contains name then leave
    else c.inTable t
  | .endTag name =>
    if name == "tr" then .done (if inScope then closed else c)
    else if name == "table" then leave
    else if tableSections.contains name then
      if c.stack.hasInScope .table [name] then leave else .done c
    else c.inTable t
  | _ => c.inTable t

/-- Close the open cell. -/
def closeCell (c : Construction) (names : List String) : Construction :=
  let left := c.mapStack fun es => (es.closeImplied []).closeThrough names
  left.clearFormatting.enter .inRow

/-- Inside a cell, whose content is like that of the body. -/
def inCell (c : Construction) (t : Token) : Outcome :=
  match t with
  | .startTag name _ =>
    if !tableParts.contains name then c.inBody t
    else if c.stack.hasInScope .table cells then .again (c.closeCell cells)
    else .done c
  | .endTag name =>
    if cells.contains name then
      .done (if c.stack.hasInScope .table [name] then c.closeCell [name] else c)
    else if name == "table" || name == "tr" || tableSections.contains name then
      if c.stack.hasInScope .table [name] then .again (c.closeCell cells) else .done c
    else if strayEnds.contains name then .done c
    else c.inBody t
  | _ => c.inBody t

/-! ## Templates and the end of the page -/

/-- Let the content of the innermost template be read in another mode. -/
def switchTemplate (c : Construction) (mode : Mode) : Construction :=
  { c with mode, templateModes := mode :: c.templateModes.drop 1 }

/-- Inside a template, whose first element decides how its content is read. -/
def inTemplate (c : Construction) (t : Token) : Outcome :=
  match t with
  | .startTag name attributes =>
    if headContent.contains name then .done (c.headElement name attributes)
    else if tableSections.contains name || name == "caption" || name == "colgroup" then
      .again (c.switchTemplate .inTable)
    else if name == "col" then .again (c.switchTemplate .inColumnGroup)
    else if name == "tr" then .again (c.switchTemplate .inTableBody)
    else if cells.contains name then .again (c.switchTemplate .inRow)
    else .again (c.switchTemplate .inBody)
  | .endTag name => .done (if name == "template" then c.endTemplate else c)
  | .endOfInput => c.endOfInput
  | _ => c.inBody t

/-- After the end tag of the body: comments go to the end of the page, blanks still to the body. -/
def afterBody (c : Construction) (t : Token) : Outcome :=
  match t with
  | .text chars =>
    if chars.all Text.isAsciiBlank then .done (c.text chars) else .again (c.enter .inBody)
  | .comment text =>
    let place := (c.stack.getLast?.map fun e => Place.inside e.id).getD c.place
    .done (c.commentAt place text)
  | .doctype _ => .done c
  | .startTag name attributes =>
    if name == "html" then .done (c.mergeHtml attributes) else .again (c.enter .inBody)
  | .endTag name =>
    if name == "html" then .done (c.enter .afterAfterBody) else .again (c.enter .inBody)
  | .endOfInput => .done c

/-- After the end tag of the page: comments go behind it. -/
def afterAfterBody (c : Construction) (t : Token) : Outcome :=
  match t with
  | .text chars =>
    if chars.all Text.isAsciiBlank then .done (c.text chars) else .again (c.enter .inBody)
  | .comment text => .done (c.commentAtEnd text)
  | .doctype _ => .done c
  | .startTag name attributes =>
    if name == "html" then .done (c.mergeHtml attributes) else .again (c.enter .inBody)
  | .endTag _ => .again (c.enter .inBody)
  | .endOfInput => .done c

/-! ## Every mode -/

/-- The rule of the present mode. -/
def rule (c : Construction) (t : Token) : Outcome :=
  match c.mode with
  | .initial => c.initial t
  | .beforeHtml => c.beforeHtml t
  | .beforeHead => c.beforeHead t
  | .inHead => c.inHead t
  | .afterHead => c.afterHead t
  | .inBody => c.inBody t
  | .text => c.inText t
  | .inTable => c.inTable t
  | .inCaption => c.inCaption t
  | .inColumnGroup => c.inColumnGroup t
  | .inTableBody => c.inTableBody t
  | .inRow => c.inRow t
  | .inCell => c.inCell t
  | .inSelect => c.inSelect t
  | .inSelectInTable => c.inSelectInTable t
  | .inTemplate => c.inTemplate t
  | .afterBody => c.afterBody t
  | .afterAfterBody => c.afterAfterBody t

/-- Treat a token until a rule is done with it. -/
def treat : Nat → Construction → Token → Construction
  | 0, c, _ => c
  | fuel + 1, c, t =>
    match c.rule t with
    | .done c => c
    | .again c => treat fuel c t

/-- Treat a token. Between two closings of an element a token is treated again a few times at most,
so the number of open elements bounds the rounds. -/
def accept (c : Construction) (t : Token) : Construction :=
  treat (4 * c.stack.length + 20) c t

/-- Insert the text that has waited. Blanks stay in the table, and other text goes elsewhere as a
whole. -/
def settle (c : Construction) : Construction :=
  let ready := { c with pending := [] }
  if c.pending.all Text.isAsciiBlank then ready.text c.pending
  else ready.foster (·.textInBody c.pending)

/-- Treat a text. Its runs of blanks and of other characters are treated one by one. -/
def receiveText (c : Construction) (chars : List Char) : Construction :=
  (chars.splitBy fun a b => Text.isAsciiBlank a == Text.isAsciiBlank b).foldl
    (fun c run => c.accept (.text run)) c

/-- Treat a step of reading. A line feed that is to be dropped is the first character of what comes
next, and is not written as a number without its semicolon. -/
def receive (c : Construction) (r : Reading) : Construction :=
  let ready := { c with dropsLineFeed := false }
  match r.token with
  | none => ready
  | some (.text chars) =>
    let drops := c.dropsLineFeed && !r.beginsUnclosed && chars.head? == some '\n'
    ready.receiveText (if drops then chars.drop 1 else chars)
  | some (.doctype d) => ready.accept (.doctype d)
  | some t => ready.settle.accept t

/-- Treat the end of the input. -/
def finish (c : Construction) : Construction :=
  c.settle.accept .endOfInput

end Construction

end DomScript.Html
