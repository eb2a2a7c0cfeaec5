/-
DomScript.Bindings — which variable holds which node.

The variables given to the elements of one conversion, in the order of their statements.
-/
import DomScript.Document

namespace DomScript

/-- Nodes with their variables, the latest first. -/
structure Bindings where
  latest : List (NodeId × String)
  deriving DecidableEq

namespace Bindings

/-- No bindings. -/
def empty : Bindings :=
  ⟨[]⟩

/-- The variable of a node. -/
def get? (b : Bindings) (id : NodeId) : Option String :=
  b.latest.lookup id

/-- Bind a node that was not bound before. -/
def insert (b : Bindings) (id : NodeId) (var : String) : Bindings :=
  ⟨(id, var) :: b.latest⟩

/-- All bindings, in the order in which they were made. -/
def toList (b : Bindings) : List (NodeId × String) :=
  b.latest.reverse

/-- The number of bound nodes. -/
def size (b : Bindings) : Nat :=
  b.latest.length

/-- Whether no node is bound. -/
def isEmpty (b : Bindings) : Bool :=
  b.latest.isEmpty

end Bindings

end DomScript
