/-
DomScript.Html.Adoption — formatting elements that overlap with other elements.

`reopenFormatting` opens again the formatting elements that were closed together with something
around them. `closeFormatting` is the end tag of a formatting element: where blocks are still open
inside, the outermost of them is moved out of the element, and its content gets a formatting element
of its own.
-/
import DomScript.Html.Construction

namespace DomScript.Html.Construction

/-! ## Opening -/

/-- Set a marker. -/
def mark (c : Construction) : Construction :=
  { c with formatting := .marker :: c.formatting }

/-- Forget the formatting elements since the last marker. -/
def clearFormatting (c : Construction) : Construction :=
  { c with formatting := c.formatting.clear }

/-- Open a formatting element. -/
def openFormatting (c : Construction) (name : String) (attributes : List Attribute) :
    Construction :=
  let formatting := c.formatting.makeRoom name attributes
  let c := c.element name attributes
  match c.stack with
  | [] => c
  | e :: _ => { c with formatting := .element e attributes :: formatting }

/-- Open the element of an entry again. -/
def reopen (c : Construction) : FormattingEntry → Construction
  | .marker => c
  | .element old attributes =>
    let c := c.element old.name attributes
    match c.stack with
    | [] => c
    | e :: _ => { c with formatting := c.formatting.exchange old.id (.element e attributes) }

/-- Whether there is nothing to open again for an entry. -/
def isSettled (c : Construction) : FormattingEntry → Bool
  | .marker => true
  | .element e _ => c.stack.any (·.id == e.id)

/-- Open the latest formatting elements again, as far as they have been closed. -/
def reopenFormatting (c : Construction) : Construction :=
  (c.formatting.takeWhile (!c.isSettled ·)).reverse.foldl reopen c

/-! ## Closing -/

/-- A block on its way out of a formatting element. -/
structure Carrying where
  document : Document
  formatting : FormattingList
  /-- The elements that stay open around the block, innermost first. -/
  around : OpenElements
  /-- The outermost node that goes with the block. -/
  outermost : NodeId
  /-- The copy that was made first. -/
  firstCopy : Option NodeId

/-- The number of formatting elements that a block is put into again on its way. -/
def copyLimit : Nat := 3

/-- Carry a block out of the element `e`, of which it has left `count` others before. A formatting
element gets a copy around the block as long as there are not too many; any other element is
closed. -/
def Carrying.leave (k : Carrying) (e : OpenElement) (count : Nat) : Carrying :=
  match k.formatting.attributes? e.id with
  | none => k
  | some attributes =>
    if copyLimit ≤ count then { k with formatting := k.formatting.remove e.id }
    else
      let id := k.document.size
      let copy : OpenElement := ⟨id, e.name, id⟩
      { document :=
          (k.document.orphan (.element ⟨e.name⟩ attributes)).move k.outermost (.inside id)
        formatting := k.formatting.exchange e.id (.element copy attributes)
        around := k.around ++ [copy]
        outermost := id
        firstCopy := k.firstCopy.or (some id) }

/-- Move `block` out of the formatting element `e` into the element `target` around that. The
elements `between` the two are left on the way, innermost first, and what is `within` the block or
`below` the formatting element stays open. The content of the block gets a formatting element of
its own. -/
def moveOut (c : Construction) (e : OpenElement) (attributes : List Attribute)
    (within : OpenElements) (block : OpenElement) (between : OpenElements) (target : OpenElement)
    (below : OpenElements) : Construction :=
  let start : Carrying := ⟨c.document, c.formatting, [], block.id, none⟩
  let k := between.zipIdx.foldl (fun k (e, count) => k.leave e count) start
  let id := k.document.size
  let inner : OpenElement := ⟨id, e.name, id⟩
  let entry := FormattingEntry.element inner attributes
  { c with
    document :=
      ((k.document.move k.outermost (c.placeIn target)).orphan (.element ⟨e.name⟩ attributes)
        |>.moveChildren block.id id).move id (.inside block.id)
    formatting :=
      match k.firstCopy with
      | none => k.formatting.exchange e.id entry
      | some copy => (k.formatting.addBehind copy entry).remove e.id
    stack := within ++ inner :: block :: (k.around ++ below) }

/-- Close the latest formatting element with a name, in as many rounds as blocks are moved out. -/
def adopt : Nat → Construction → String → Construction
  | 0, c, _ => c
  | fuel + 1, c, name =>
    match c.formatting.named? name with
    | none => c.mapStack fun es => es.closeOrdinary name es
    | some (e, attributes) =>
      let (inside, outside) := c.stack.span (·.id != e.id)
      let forgotten := { c with formatting := c.formatting.remove e.id }
      if outside.isEmpty then forgotten
      else if !c.stack.anyInScope .default (·.id == e.id) then c
      else
        let below := outside.drop 1
        let (between, blocks) := inside.reverse.span (!special.contains ·.name)
        match blocks, below with
        | block :: within, target :: _ =>
          adopt fuel
            (c.moveOut e attributes within.reverse block between.reverse target below) name
        | _, _ => { forgotten with stack := below }

/-- The number of rounds in which an end tag moves blocks out of its element. -/
def adoptionLimit : Nat := 8

/-- The end tag of a formatting element. -/
def closeFormatting (c : Construction) (name : String) : Construction :=
  let isForgotten (e : OpenElement) : Bool :=
    e.name == name && (c.formatting.attributes? e.id).isNone
  if c.stack.head?.any isForgotten then c.pop else adopt adoptionLimit c name

/-! ## Elements with rules of their own -/

/-- Open an anchor, which closes the one that is open. -/
def openAnchor (c : Construction) (attributes : List Attribute) : Construction :=
  let c :=
    match c.formatting.named? "a" with
    | none => c
    | some (e, _) =>
      let c := c.closeFormatting "a"
      { c with
        formatting := c.formatting.remove e.id
        stack := c.stack.filter (·.id != e.id) }
  c.reopenFormatting.openFormatting "a" attributes

/-- Open an element whose content is not broken, which closes the one that is open. -/
def openUnbroken (c : Construction) (attributes : List Attribute) : Construction :=
  let c := c.reopenFormatting
  let c :=
    if c.stack.hasInScope .default ["nobr"] then (c.closeFormatting "nobr").reopenFormatting
    else c
  c.openFormatting "nobr" attributes

end DomScript.Html.Construction
