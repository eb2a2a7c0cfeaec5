/-
DomScript.Forest — ordered trees, and the edges of a walk around them.

A forest is a list of labelled trees, given by its first tree and the ones behind it. A depth-first
walk opens a node, walks its children and closes it; `edges` lists these events in order.
-/

namespace DomScript

/-- An ordered forest with labelled nodes. -/
inductive Forest (α : Type) where
  | nil
  | node (label : α) (children siblings : Forest α)
  deriving DecidableEq

/-- A moment of a depth-first walk. -/
inductive Edge (α : Type) where
  | enter (label : α)
  | leave (label : α)
  deriving DecidableEq

namespace Forest

variable {α β : Type}

/-- Change every label. -/
def map (f : α → β) : Forest α → Forest β
  | nil => nil
  | node label children siblings => node (f label) (map f children) (map f siblings)

/-- The labels in document order. -/
def labels : Forest α → List α
  | nil => []
  | node label children siblings => label :: (labels children ++ labels siblings)

/-- The edges of a walk, with `rest` behind them. -/
def edgesOnto : Forest α → List (Edge α) → List (Edge α)
  | nil, rest => rest
  | node label children siblings, rest =>
    .enter label :: edgesOnto children (.leave label :: edgesOnto siblings rest)

/-- The edges of a depth-first walk. -/
def edges (f : Forest α) : List (Edge α) :=
  edgesOnto f []

end Forest

end DomScript
