/-
DomScript.Document.Copy — documents as forests, and forests as documents.

`Document.forest` is the tree that the links of a document describe. `Document.ofEdges` builds a
document along the edges of a walk: it keeps the copies of the nodes that are still open and appends
each node to the innermost of them, so the numbers of a copy follow document order. A document node
inside a tree has no copy of its own; what it holds goes to the node around it. `Document.ofPage`
copies what a parser of pages finds; which parser that is, is left open.
-/
import DomScript.Document
import DomScript.Forest

namespace DomScript

namespace Document

/-! ## From documents to forests -/

/-- The trees of `start?` and of the siblings behind it, as far as `fuel` goes. -/
def forestFrom (d : Document) : Nat → Option NodeId → Forest (NodeId × Content)
  | _, none => .nil
  | 0, some _ => .nil
  | fuel + 1, some id =>
    match d.node? id with
    | none => .nil
    | some node =>
      .node (id, node.content) (forestFrom d fuel node.firstChild)
        (forestFrom d fuel node.nextSibling)

/-- The tree of a document, each node with its number. A way along first children and next siblings
meets no node twice, so the size bounds its length. -/
def forest (d : Document) : Forest (NodeId × Content) :=
  forestFrom d d.size (some root)

/-! ## From forests to documents -/

/-- A copy under way: the copies of the open nodes, innermost first. -/
structure Copying where
  document : Document
  parents : List NodeId
  deriving DecidableEq

namespace Copying

/-- The copy before the first edge: no node is open. -/
def start : Copying :=
  ⟨.empty, []⟩

/-- Copy what a node holds below `parent`: the document after it, and where its children go. -/
def place (d : Document) (parent : NodeId) : Content → Document × NodeId
  | .document => (d, parent)
  | content => (d.append parent content, d.size)

/-- Follow one edge. The outermost node becomes the document node. -/
def step (c : Copying) : Edge Content → Copying
  | .enter content =>
    match c.parents with
    | [] => { c with parents := [root] }
    | parent :: _ =>
      let (document, id) := place c.document parent content
      ⟨document, id :: c.parents⟩
  | .leave _ => { c with parents := c.parents.drop 1 }

end Copying

/-- The document that the edges of a walk describe. -/
def ofEdges (edges : List (Edge Content)) : Document :=
  (edges.foldl Copying.step .start).document

/-- A copy of a tree, numbered in document order. -/
def ofForest (f : Forest Content) : Document :=
  ofEdges f.edges

end Document

/-! ## Pages -/

/-- What reads the text of a page and finds the tree in it, with one node around everything that
stands for the page itself. Kinds of nodes that have no copy are told as document nodes. -/
abbrev PageParser := String → Forest Content

/-- The document of a page, as a parser sees it. -/
def Document.ofPage (parser : PageParser) (html : String) : Document :=
  .ofForest (parser html)

end DomScript
