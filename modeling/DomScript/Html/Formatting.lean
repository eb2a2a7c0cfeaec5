/-
DomScript.Html.Formatting — the list of formatting elements.

A formatting element that is closed only because something around it ends is opened again for the
content behind. The list keeps the formatting elements for which that may be due, the latest first.
A marker limits what the list is searched for to the innermost cell, caption, template or embedded
object.
-/
import DomScript.Html.Elements

namespace DomScript.Html

/-- Formatting elements without rules of their own. -/
def plainFormatting : List String :=
  ["b", "big", "code", "em", "font", "i", "s", "small", "strike", "strong", "tt", "u"]

/-- All formatting elements. -/
def formattingElements : List String :=
  plainFormatting ++ ["a", "nobr"]

/-- Elements that shut their content off from the formatting around them. -/
def embeddedObjects : List String :=
  ["applet", "marquee", "object"]

/-- An entry of the list. -/
inductive FormattingEntry where
  | marker
  /-- A formatting element and the attributes to open it again with. -/
  | element (e : OpenElement) (attributes : List Attribute)
  deriving DecidableEq

namespace FormattingEntry

/-- Whether this is a marker. -/
def isMarker : FormattingEntry → Bool
  | marker => true
  | element .. => false

/-- Whether this is the entry of the element with a number. -/
def isFor (id : NodeId) : FormattingEntry → Bool
  | marker => false
  | element e _ => e.id == id

/-- Whether this is the entry of an element with this name and these attributes, in any order. -/
def isAlike (name : String) (attributes : List Attribute) : FormattingEntry → Bool
  | marker => false
  | element e others =>
    e.name == name && others.length == attributes.length && others.all (attributes.contains ·)

end FormattingEntry

/-- The formatting elements, latest first. -/
abbrev FormattingList := List FormattingEntry

namespace FormattingList

/-- The entries since the last marker. -/
def sinceMarker (l : FormattingList) : FormattingList :=
  l.takeWhile (!·.isMarker)

/-- Drop the entries since the last marker, and the marker. -/
def clear (l : FormattingList) : FormattingList :=
  (l.dropWhile (!·.isMarker)).drop 1

/-- The latest element with a name since the last marker, and its attributes. -/
def named? (l : FormattingList) (name : String) : Option (OpenElement × List Attribute) :=
  l.sinceMarker.findSome? fun
    | .marker => none
    | .element e attributes => if e.name == name then some (e, attributes) else none

/-- The attributes in the entry of an element. -/
def attributes? (l : FormattingList) (id : NodeId) : Option (List Attribute) :=
  l.findSome? fun
    | .marker => none
    | .element e attributes => if e.id == id then some attributes else none

/-- Drop the entry of an element. -/
def remove (l : FormattingList) (id : NodeId) : FormattingList :=
  l.filter (!·.isFor id)

/-- Put an entry into the place of the entry of an element. -/
def exchange (l : FormattingList) (id : NodeId) (entry : FormattingEntry) : FormattingList :=
  l.map fun old => if old.isFor id then entry else old

/-- Put an entry right behind the entry of an element, as the later of the two. -/
def addBehind (l : FormattingList) (id : NodeId) (entry : FormattingEntry) : FormattingList :=
  l.flatMap fun old => if old.isFor id then [entry, old] else [old]

/-- How many entries that are alike can follow a marker. -/
def alikeLimit : Nat := 3

/-- Drop the earliest of the entries alike since the last marker, if there are too many of them for
one more. -/
def makeRoom (l : FormattingList) (name : String) (attributes : List Attribute) :
    FormattingList :=
  match (l.sinceMarker.filter (·.isAlike name attributes)).reverse with
  | .element e _ :: rest => if alikeLimit ≤ rest.length + 1 then l.remove e.id else l
  | _ => l

end FormattingList

end DomScript.Html
