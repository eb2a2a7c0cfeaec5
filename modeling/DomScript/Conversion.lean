/-
DomScript.Conversion — from a document to the script that builds it again.

The nodes below the document node are visited in document order. A visited element that the filters
admit is created, given its attributes, appended to the nearest created ancestor (or to the default
parent) and bound to its variable. Text that is more than blank space is written as code inside a
script element and as a text node elsewhere; without a created ancestor it goes to the default
parent or is dropped, as the options say. The walk keeps the pending siblings of every level on a
stack and never enters text or an ignored element.
-/
import DomScript.Bindings
import DomScript.Statement
import DomScript.Text.Utf8
import DomScript.VariableNames

namespace DomScript

/-! ## Options and reports -/

/-- How documents are converted. -/
structure Options where
  stem : String
  defaultParent : String
  keepRootText : Bool
  filters : Filters
  deriving DecidableEq

/-- Names start with an underscore, and what has no created ancestor goes to the body. -/
def Options.default : Options where
  stem := "_"
  defaultParent := "document.body"
  keepRootText := false
  filters := .default

/-- What a conversion reports while it runs. -/
inductive Event where
  | emitting (node : NodeId) (tag : Tag) (var : String)
  | dropping (node : NodeId)
  | converted (nodes elements bytes : Nat)
  deriving DecidableEq

/-- The importance of a report. -/
inductive Event.Level where
  | trace
  | debug
  deriving DecidableEq

namespace Event

/-- Reports on single nodes are for tracing only. -/
def level : Event → Level
  | .emitting .. | .dropping _ => .trace
  | .converted .. => .debug

/-- The words of a report. -/
def message : Event → String
  | .emitting .. => "emitting element"
  | .dropping _ => "dropping text without emitted parent"
  | .converted .. => "converted document"

end Event

/-! ## Visiting one node -/

/-- What a walk has produced so far. -/
structure Progress where
  names : VariableNames
  bindings : Bindings
  script : Array Statement
  events : Array Event
  deriving DecidableEq

namespace Progress

/-- Nothing has been produced yet. -/
def start (names : VariableNames) : Progress :=
  ⟨names, .empty, #[], #[]⟩

/-- Add statements to the script. -/
def emit (p : Progress) (statements : List Statement) : Progress :=
  { p with script := p.script ++ statements }

/-- Add a report. -/
def report (p : Progress) (e : Event) : Progress :=
  { p with events := p.events.push e }

/-- The variable of the nearest created ancestor. -/
def parentVariable? (p : Progress) (d : Document) (id : NodeId) : Option String :=
  (d.ancestors id).findSome? p.bindings.get?

/-- Take a variable for a text node below `parent`. -/
def createText (p : Progress) (parent text : String) : Progress :=
  let (var, names) := p.names.generate
  { p with names }.emit [.createText var text, .appendChild parent var]

/-- Take a variable for an element, create it and bind it. -/
def createElement (p : Progress) (parent : String) (id : NodeId) (tag : Tag)
    (attributes : List Attribute) : Progress :=
  let (var, names) := p.names.generate
  let p := { p with names }.report (.emitting id tag var)
  let p := p.emit (.createElement var tag :: attributes.flatMap (·.statements var))
  let p := p.emit [.appendChild parent var]
  { p with bindings := p.bindings.insert id var }

end Progress

/-- Whether the node above `id` is a script element. -/
def Document.inScript (d : Document) (id : NodeId) : Bool :=
  match ((d.node? id).bind Node.parent).bind d.content? with
  | some content => content.tag? == some .script
  | none => false

/-- Visit a text node. -/
def visitText (d : Document) (o : Options) (id : NodeId) (payload : String) (p : Progress) :
    Progress :=
  let trimmed := Text.trim payload.toList
  let text := String.ofList trimmed
  if trimmed.isEmpty then p
  else if d.inScript id then p.emit [.code text]
  else
    match p.parentVariable? d id with
    | some parent => p.createText parent text
    | none => if o.keepRootText then p.createText o.defaultParent text else p.report (.dropping id)

/-- Visit an element. -/
def visitElement (d : Document) (o : Options) (id : NodeId) (tag : Tag)
    (attributes : List Attribute) (p : Progress) : Progress :=
  if o.filters.isEligible (some tag) then
    p.createElement ((p.parentVariable? d id).getD o.defaultParent) id tag attributes
  else p

/-- Visit a node. Other nodes than text and elements leave no trace of their own. -/
def visit (d : Document) (o : Options) (id : NodeId) (content : Content) (p : Progress) :
    Progress :=
  match content with
  | .text payload => visitText d o id payload p
  | .element tag attributes => visitElement d o id tag attributes p
  | _ => p

/-- Whether the children of a node are visited too. -/
def Filters.descends (f : Filters) : Content → Bool
  | .text _ => false
  | .element tag _ => !f.isIgnored (some tag)
  | _ => true

/-! ## The walk -/

/-- A walk under way: for every level the next sibling to visit, innermost first, and what has been
produced. -/
structure Walk where
  levels : List (Option NodeId)
  progress : Progress
  deriving DecidableEq

namespace Walk

/-- One step: leave a level that is exhausted, or visit the next node of the innermost level and
enter it if its children are visited too. -/
def step (d : Document) (o : Options) (w : Walk) : Walk :=
  match w.levels with
  | [] => w
  | none :: outer => { w with levels := outer }
  | some id :: outer =>
    match d.node? id with
    | none => { w with levels := outer }
    | some node =>
      let rest := node.nextSibling :: outer
      { levels := if o.filters.descends node.content then node.firstChild :: rest else rest
        progress := visit d o id node.content w.progress }

/-- Up to `fuel` steps, until no level is left. -/
def run (d : Document) (o : Options) : Nat → Walk → Walk
  | 0, w => w
  | fuel + 1, w => if w.levels.isEmpty then w else run d o fuel (w.step d o)

/-- The walk before its first step. -/
def start (d : Document) (names : VariableNames) : Walk :=
  ⟨[(d.node? Document.root).bind Node.firstChild], .start names⟩

end Walk

/-! ## Conversions -/

/-- What a conversion gives. -/
structure Conversion where
  bindings : Bindings
  script : List Statement
  events : List Event
  names : VariableNames
  deriving DecidableEq

/-- The text that a conversion adds. -/
def Conversion.text (c : Conversion) : String :=
  renderScript c.script

/-- Convert a document, taking variables from `names`. Every node is visited at most once and every
level is left once, so twice the size of the document bounds the steps of the walk. -/
def Document.convert (d : Document) (o : Options) (names : VariableNames) : Conversion :=
  let p := (Walk.run d o (2 * d.size) (Walk.start d names)).progress
  let script := p.script.toList
  { bindings := p.bindings
    script
    events := p.events.toList ++
      [.converted d.size p.bindings.size (renderScript script).utf8ByteSize]
    names := p.names }

end DomScript
