/-
DomScript.Tag — element names, ordered lists of them, and the filters made of such lists.

Names are compared exactly, without regard to what letter case means in a markup language. A
`TagSet` keeps order and repetitions, which can be read back but do not affect membership.
-/

namespace DomScript

/-! ## Tags -/

/-- The name of an element, kept as given. -/
structure Tag where
  name : String
  deriving DecidableEq

namespace Tag

/-- The tag of a whole page. -/
def html : Tag := ⟨"html"⟩

/-- The tag of the part of a page that is not shown. -/
def head : Tag := ⟨"head"⟩

/-- The tag of the part of a page that is shown. -/
def body : Tag := ⟨"body"⟩

/-- The tag of an element whose text is code. -/
def script : Tag := ⟨"script"⟩

/-- Tags are ordered like their names, by code points. -/
instance : Ord Tag where
  compare a b := compare a.name b.name

end Tag

/-! ## Ordered sets of tags -/

/-- A list of tags that is asked for membership. -/
structure TagSet where
  tags : List Tag
  deriving DecidableEq

namespace TagSet

/-- The set without tags. -/
def empty : TagSet :=
  ⟨[]⟩

/-- The number of entries, repetitions included. -/
def size (s : TagSet) : Nat :=
  s.tags.length

/-- Whether there is no entry. -/
def isEmpty (s : TagSet) : Bool :=
  s.tags.isEmpty

/-- Whether a tag is a member. -/
def contains (s : TagSet) (t : Tag) : Bool :=
  s.tags.contains t

/-- Whether the tag of a node, if it has one, is a member: nodes without a tag match no set. -/
def covers (s : TagSet) (tag? : Option Tag) : Bool :=
  tag?.any s.contains

/-- A change of a tag set. -/
inductive Edit where
  | replace (tags : List Tag)
  | append (tags : List Tag)
  | eraseFirst (tag : Tag)
  | clear
  deriving DecidableEq

/-- Carry out a change. Erasing removes the first occurrence only. -/
def apply (s : TagSet) : Edit → TagSet
  | .replace tags => ⟨tags⟩
  | .append tags => ⟨s.tags ++ tags⟩
  | .eraseFirst tag => ⟨s.tags.erase tag⟩
  | .clear => empty

end TagSet

/-! ## Filters -/

/-- Which elements are rebuilt, and which are walked into. While `includes` has members it alone
decides what is rebuilt; otherwise everything outside `excludes` is. Elements in `ignores` are not
walked into. -/
structure Filters where
  includes : TagSet
  excludes : TagSet
  ignores : TagSet
  deriving DecidableEq

namespace Filters

/-- Everything is rebuilt but the skeleton of a page and its scripts; heads are not walked into. -/
def default : Filters where
  includes := .empty
  excludes := ⟨[.html, .head, .body, .script]⟩
  ignores := ⟨[.head]⟩

/-- Whether a node with this tag gets a statement that creates it. -/
def isEligible (f : Filters) (tag? : Option Tag) : Bool :=
  f.includes.covers tag? || (f.includes.isEmpty && !f.excludes.covers tag?)

/-- Whether the children of a node with this tag are left out. -/
def isIgnored (f : Filters) (tag? : Option Tag) : Bool :=
  f.ignores.covers tag?

/-- The three sets by role. -/
inductive Role where
  | includes
  | excludes
  | ignores
  deriving DecidableEq

/-- Edit the set of one role. -/
def edit (f : Filters) (role : Role) (e : TagSet.Edit) : Filters :=
  match role with
  | .includes => { f with includes := f.includes.apply e }
  | .excludes => { f with excludes := f.excludes.apply e }
  | .ignores => { f with ignores := f.ignores.apply e }

end Filters

end DomScript
