/-
DomScript.Document.Place — places in a document, and what is put there.

A place is the end of the children of a node or the gap in front of one of them. Nodes can be added
and moved to a place, and text that is added right behind a text continues it. Every operation keeps
the numbers of the nodes; a new one takes the next free number.
-/
import DomScript.Document

namespace DomScript

/-- A place for a node. -/
inductive Place where
  /-- Behind the last child of a node. -/
  | inside (parent : NodeId)
  /-- In front of a node, below the same parent. -/
  | before (sibling : NodeId)
  deriving DecidableEq

namespace Document

/-! ## Around a place -/

/-- The sibling right in front of a node. -/
def previousSibling? (d : Document) (id : NodeId) : Option NodeId :=
  (d.parent? id).bind fun parent => ((d.children parent).takeWhile (· != id)).getLast?

/-- The node right in front of a place. -/
def neighbour? (d : Document) : Place → Option NodeId
  | .inside parent => (d.node? parent).bind Node.lastChild
  | .before sibling => d.previousSibling? sibling

/-! ## Changing links -/

/-- Change a node. -/
def modify (d : Document) (id : NodeId) (f : Node → Node) : Document :=
  ⟨d.nodes.modify id f⟩

/-- Let `next` follow a node. -/
def setNext (d : Document) (id : NodeId) (next : Option NodeId) : Document :=
  d.modify id fun n => { n with nextSibling := next }

/-- Add a node that has no parent yet. -/
def orphan (d : Document) (content : Content) : Document :=
  ⟨d.nodes.push { content }⟩

/-- Link a node that has no parent in front of `sibling`. -/
def linkBefore (d : Document) (sibling id : NodeId) : Document :=
  match d.parent? sibling with
  | none => d
  | some parent =>
    let linked :=
      match d.previousSibling? sibling with
      | none => d.modify parent fun p => { p with firstChild := some id }
      | some previous => d.setNext previous (some id)
    linked.modify id fun n => { n with parent := some parent, nextSibling := some sibling }

/-- Link a node that has no parent behind the last child of `parent`. -/
def linkInside (d : Document) (parent id : NodeId) : Document :=
  let linked :=
    match (d.node? parent).bind Node.lastChild with
    | none => d
    | some last => d.setNext last (some id)
  (linked.modify parent (adopt · id)).modify id fun n => { n with parent := some parent }

/-- Unlink a node from its parent and its siblings. -/
def detach (d : Document) (id : NodeId) : Document :=
  match d.parent? id with
  | none => d
  | some parent =>
    let previous := d.previousSibling? id
    let next := (d.node? id).bind Node.nextSibling
    let unlinked :=
      match previous with
      | none => d.modify parent fun p => { p with firstChild := next }
      | some previous => d.setNext previous next
    let shrink (p : Node) : Node :=
      if p.lastChild == some id then { p with lastChild := previous } else p
    (unlinked.modify parent shrink).modify id fun n =>
      { n with parent := none, nextSibling := none }

/-! ## Adding and moving -/

/-- Move a node, with all that is below it, to a place. -/
def move (d : Document) (id : NodeId) (place : Place) : Document :=
  match place with
  | .inside parent => (d.detach id).linkInside parent id
  | .before sibling => (d.detach id).linkBefore sibling id

/-- Move the children of a node behind the last child of another one. -/
def moveChildren (d : Document) (source target : NodeId) : Document :=
  (d.children source).foldl (fun d id => d.move id (.inside target)) d

/-- Add a node at a place. -/
def insert (d : Document) (place : Place) (content : Content) : Document :=
  match place with
  | .inside parent => d.append parent content
  | .before sibling => (d.orphan content).linkBefore sibling d.size

/-- Change what a node holds. -/
def modifyContent (d : Document) (id : NodeId) (f : Content → Content) : Document :=
  d.modify id fun n => { n with content := f n.content }

/-- Add text at a place. It continues the node in front if that is a text. -/
def insertText (d : Document) (place : Place) (payload : String) : Document :=
  let lengthen : Content → Content
    | .text front => .text (front ++ payload)
    | other => other
  let neighbour := d.neighbour? place
  match neighbour, (neighbour.bind d.content?).map Content.isText with
  | some id, some true => d.modifyContent id lengthen
  | _, _ => d.insert place (.text payload)

end Document

end DomScript
