/-
DomScript.Document — a tree of nodes in an array.

Node 0 is the document itself. `Document.append` gives a new node the next free number and links it
behind the last child of its parent, so every number stays valid and parents come before children.
Children are read along the sibling links and ancestors along the parent links; the size of the
document bounds the first, the number of the node the second.
-/
import DomScript.Attribute
import DomScript.Tag

namespace DomScript

/-! ## Nodes -/

/-- What a node holds apart from its place in the tree. -/
inductive Content where
  | document
  | element (tag : Tag) (attributes : List Attribute)
  | text (payload : String)
  | comment (payload : String)
  | doctype (name : String)
  | fragment
  deriving DecidableEq

namespace Content

/-- The number that the DOM gives to a kind of node. -/
def nodeType : Content → Nat
  | .element .. => 1
  | .text _ => 3
  | .comment _ => 8
  | .document => 9
  | .doctype _ => 10
  | .fragment => 11

/-- The tag of an element. -/
def tag? : Content → Option Tag
  | .element tag _ => some tag
  | _ => none

/-- The payload of a text or comment, the name of a doctype. -/
def value? : Content → Option String
  | .text payload => some payload
  | .comment payload => some payload
  | .doctype name => some name
  | _ => none

/-- The attributes of an element, in source order. -/
def attributes : Content → List Attribute
  | .element _ attributes => attributes
  | _ => []

/-- The tag as a string, empty for other nodes than elements. -/
def tagName (c : Content) : String :=
  (c.tag?.map Tag.name).getD ""

/-- Whether this is an element. -/
def isElement : Content → Bool
  | .element .. => true
  | _ => false

/-- Whether this is a text. -/
def isText : Content → Bool
  | .text _ => true
  | _ => false

end Content

/-- A node is named by its place in the array of its document. -/
abbrev NodeId := Nat

/-- A node with its links. -/
structure Node where
  content : Content
  parent : Option NodeId := none
  firstChild : Option NodeId := none
  lastChild : Option NodeId := none
  nextSibling : Option NodeId := none
  deriving DecidableEq

/-! ## Documents -/

/-- The nodes of a tree, by number. -/
structure Document where
  nodes : Array Node
  deriving DecidableEq

namespace Document

/-- The number of the document node. -/
def root : NodeId := 0

/-- A document with nothing in it. -/
def empty : Document :=
  ⟨#[{ content := .document }]⟩

/-- The number of nodes, the document node included. -/
def size (d : Document) : Nat :=
  d.nodes.size

/-- Whether there is nothing besides the document node. -/
def isEmpty (d : Document) : Bool :=
  d.size == 1

/-- The node with a number. -/
def node? (d : Document) (id : NodeId) : Option Node :=
  d.nodes[id]?

/-- What the node with a number holds. -/
def content? (d : Document) (id : NodeId) : Option Content :=
  (d.node? id).map Node.content

/-- Let the node `id` end the list of children of `p`. -/
def adopt (p : Node) (id : NodeId) : Node :=
  { p with firstChild := p.firstChild.or (some id), lastChild := some id }

/-- Add a node behind the last child of `parent`. Its number is the size before; a parent that is
not in the document leaves it unchanged. -/
def append (d : Document) (parent : NodeId) (content : Content) : Document :=
  match d.nodes[parent]? with
  | none => d
  | some p =>
    let id := d.nodes.size
    let nodes :=
      match p.lastChild with
      | none => d.nodes
      | some last => d.nodes.modify last fun n => { n with nextSibling := some id }
    ⟨(nodes.modify parent (adopt · id)).push { content, parent := some parent }⟩

/-! ## Reading the tree -/

/-- The nodes from `start?` on along the sibling links, as far as `fuel` goes. -/
def siblingsFrom (d : Document) : Nat → Option NodeId → List NodeId
  | _, none => []
  | 0, some _ => []
  | fuel + 1, some id => id :: siblingsFrom d fuel ((d.node? id).bind Node.nextSibling)

/-- The children of a node, in order. -/
def children (d : Document) (id : NodeId) : List NodeId :=
  siblingsFrom d d.size ((d.node? id).bind Node.firstChild)

/-- The parent of a node. -/
def parent? (d : Document) (id : NodeId) : Option NodeId :=
  (d.node? id).bind Node.parent

/-- The nodes from `start?` on along the parent links, as far as `fuel` goes. -/
def ancestorsFrom (d : Document) : Nat → Option NodeId → List NodeId
  | _, none => []
  | 0, some _ => []
  | fuel + 1, some id => id :: ancestorsFrom d fuel ((d.node? id).bind Node.parent)

/-- The ancestors of a node, nearest first. A parent has a smaller number, so there are at most
`id` of them. -/
def ancestors (d : Document) (id : NodeId) : List NodeId :=
  ancestorsFrom d id ((d.node? id).bind Node.parent)

end Document

end DomScript
