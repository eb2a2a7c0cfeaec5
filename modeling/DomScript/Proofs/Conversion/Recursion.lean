/-
DomScript.Proofs.Conversion.Recursion — the walk over a document is a recursion over its tree.

The walk keeps a stack of pending siblings and finds the parent of what it creates by going up the
ancestors and asking the bindings. `Forest.convert` does neither: it is a structural recursion that
hands the variable of the nearest created element down, together with whether the level lies right
below a script element, and only ever adds to what it yields.

* `Walk.run_level` — walking one level of a linked forest yields what the recursion yields, in
  `walkSteps` steps;
* `Built.convert_eq` — `Document.convert` is the recursion, on every document that was built;
* `session_convert_eq_recursion` — and so is a conversion in any session.
-/
import DomScript.Proofs.Document.Tree
import DomScript.Session

namespace DomScript

/-! ## What a part of a document yields -/

/-- The statements of each visited node, the bindings and the reports, all in order, and the names
after them. -/
structure Yield where
  parts : List (NodeId × List Statement)
  bindings : List (NodeId × String)
  events : List Event
  names : VariableNames

namespace Yield

/-- All statements. -/
def script (y : Yield) : List Statement :=
  y.parts.flatMap Prod.snd

/-- Nothing but the names as they were. -/
def nothing (names : VariableNames) : Yield :=
  ⟨[], [], [], names⟩

/-- What a visited node gives by itself. -/
def single (id : NodeId) (script : List Statement) (bindings : List (NodeId × String))
    (events : List Event) (names : VariableNames) : Yield :=
  ⟨[(id, script)], bindings, events, names⟩

/-- First `y`, and then what follows with the names that `y` leaves. -/
def andThen (y : Yield) (next : VariableNames → Yield) : Yield where
  parts := y.parts ++ (next y.names).parts
  bindings := y.bindings ++ (next y.names).bindings
  events := y.events ++ (next y.names).events
  names := (next y.names).names

/-- The variable that the first binding gives. -/
def firstVar? (y : Yield) : Option String :=
  y.bindings.head?.map Prod.snd

@[simp] theorem nothing_parts (v : VariableNames) : (nothing v).parts = [] := rfl
@[simp] theorem nothing_script (v : VariableNames) : (nothing v).script = [] := rfl
@[simp] theorem nothing_bindings (v : VariableNames) : (nothing v).bindings = [] := rfl
@[simp] theorem nothing_events (v : VariableNames) : (nothing v).events = [] := rfl
@[simp] theorem nothing_names (v : VariableNames) : (nothing v).names = v := rfl

@[simp] theorem single_script (id : NodeId) (script : List Statement)
    (bindings : List (NodeId × String)) (events : List Event) (names : VariableNames) :
    (single id script bindings events names).script = script := by
  simp [single, Yield.script]

variable (y : Yield) (next : VariableNames → Yield)

@[simp] theorem andThen_parts :
    (y.andThen next).parts = y.parts ++ (next y.names).parts := rfl

@[simp] theorem andThen_script :
    (y.andThen next).script = y.script ++ (next y.names).script :=
  List.flatMap_append

@[simp] theorem andThen_bindings :
    (y.andThen next).bindings = y.bindings ++ (next y.names).bindings := rfl

@[simp] theorem andThen_events :
    (y.andThen next).events = y.events ++ (next y.names).events := rfl

@[simp] theorem andThen_names : (y.andThen next).names = (next y.names).names := rfl

@[simp] theorem nothing_andThen (v : VariableNames) : (nothing v).andThen next = next v := rfl

@[simp] theorem andThen_nothing : y.andThen nothing = y := by
  simp [andThen]

end Yield

/-! ## The recursion -/

/-- What a text gives: code right below a script element, and elsewhere a text node below the
nearest created element or, if the options keep it, below the default parent. -/
def Yield.ofText (o : Options) (parent? : Option String) (inScript : Bool) (id : NodeId)
    (payload : String) (names : VariableNames) : Yield :=
  let trimmed := Text.trim payload.toList
  let text := String.ofList trimmed
  let (var, after) := names.generate
  if trimmed.isEmpty then single id [] [] [] names
  else if inScript then single id [.code text] [] [] names
  else
    match parent? with
    | some parent => single id [.createText var text, .appendChild parent var] [] [] after
    | none =>
      if o.keepRootText then
        single id [.createText var text, .appendChild o.defaultParent var] [] [] after
      else single id [] [] [.dropping id] names

/-- What an element itself gives, if the filters admit it. -/
def Yield.ofElement (o : Options) (parent? : Option String) (id : NodeId) (tag : Tag)
    (attributes : List Attribute) (names : VariableNames) : Yield :=
  let (var, after) := names.generate
  if o.filters.isEligible (some tag) then
    single id
      (.createElement var tag :: attributes.flatMap (·.statements var) ++
        [.appendChild (parent?.getD o.defaultParent) var])
      [(id, var)] [.emitting id tag var] after
  else single id [] [] [] names

/-- What a node itself gives. -/
def Yield.ofNode (o : Options) (parent? : Option String) (inScript : Bool) (id : NodeId)
    (content : Content) (names : VariableNames) : Yield :=
  match content with
  | .text payload => ofText o parent? inScript id payload names
  | .element tag attributes => ofElement o parent? id tag attributes names
  | _ => single id [] [] [] names

/-- What a forest gives. The children of a node see its variable, if it got one, and the one handed
down to the node otherwise. -/
def Forest.convert (o : Options) (parent? : Option String) (inScript : Bool) :
    Forest (NodeId × Content) → VariableNames → Yield
  | .nil, names => .nothing names
  | .node (id, content) children siblings, names =>
    let here := Yield.ofNode o parent? inScript id content names
    let below := here.andThen
      (if o.filters.descends content then
        convert o (here.firstVar?.or parent?) (content.tag? == some .script) children
      else .nothing)
    below.andThen (convert o parent? inScript siblings)

theorem Forest.convert_node_nil (o : Options) (parent? : Option String) (inScript : Bool)
    (id : NodeId) (content : Content) (kids : Forest (NodeId × Content)) (names : VariableNames) :
    Forest.convert o parent? inScript (.node (id, content) kids .nil) names =
      (Yield.ofNode o parent? inScript id content names).andThen
        (if o.filters.descends content then
          kids.convert o ((Yield.ofNode o parent? inScript id content names).firstVar?.or parent?)
            (content.tag? == some .script)
        else .nothing) := by
  simp only [convert]
  exact Yield.andThen_nothing _

/-- A tree and its siblings. -/
theorem Forest.convert_node (o : Options) (parent? : Option String) (inScript : Bool)
    (a : NodeId × Content) (kids sibs : Forest (NodeId × Content)) (names : VariableNames) :
    Forest.convert o parent? inScript (.node a kids sibs) names =
      (Forest.convert o parent? inScript (.node a kids .nil) names).andThen
        (sibs.convert o parent? inScript) := by
  rw [Forest.convert_node_nil]
  rfl

/-- The trees below the document node. -/
def Document.trees (d : Document) : Forest (NodeId × Content) :=
  match d.forest with
  | .nil => .nil
  | .node _ children _ => children

/-- The conversion of a document by recursion over its tree. -/
def Document.convertByTree (d : Document) (o : Options) (names : VariableNames) : Conversion :=
  let y := d.trees.convert o none false names
  { bindings := ⟨y.bindings.reverse⟩
    script := y.script
    events := y.events ++
      [.converted d.size y.bindings.length (renderScript y.script).utf8ByteSize]
    names := y.names }

/-! ### What the recursion binds -/

/-- **Where a text can end up**: nowhere, if it is blank or dropped; as code right below a script
element; as a text node elsewhere. -/
theorem Yield.ofText_cases (o : Options) (parent? : Option String) (inScript : Bool)
    (id : NodeId) (payload : String) (names : VariableNames) :
    let trimmed := Text.trim payload.toList
    let y := ofText o parent? inScript id payload names
    (∃ events, y = single id [] [] events names ∧
      (trimmed = [] ∨ inScript = false ∧ parent? = none ∧ o.keepRootText = false)) ∨
    (trimmed ≠ [] ∧ inScript = true ∧ y = single id [.code (.ofList trimmed)] [] [] names) ∨
    (trimmed ≠ [] ∧ inScript = false ∧ (parent?.isSome ∨ o.keepRootText = true) ∧
      y = single id [.createText names.advance.name (.ofList trimmed),
        .appendChild (parent?.getD o.defaultParent) names.advance.name] [] [] names.advance) := by
  intro trimmed y
  have hy : y = ofText o parent? inScript id payload names := rfl
  simp only [ofText] at hy
  split at hy
  · rename_i hblank
    exact .inl ⟨[], hy, .inl (List.isEmpty_iff.mp hblank)⟩
  · rename_i hne
    have hne : trimmed ≠ [] := fun h => hne (List.isEmpty_iff.mpr h)
    cases inScript with
    | true => exact .inr (.inl ⟨hne, rfl, hy⟩)
    | false =>
      cases parent? with
      | some parent => exact .inr (.inr ⟨hne, rfl, .inl rfl, hy⟩)
      | none =>
        cases hk : o.keepRootText with
        | true =>
          rw [hk] at hy
          exact .inr (.inr ⟨hne, rfl, .inr rfl, hy⟩)
        | false =>
          rw [hk] at hy
          exact .inl ⟨[.dropping id], hy, .inr ⟨rfl, rfl, rfl⟩⟩

/-- A visited node has one part, which is all that it gives. -/
theorem Yield.ofNode_parts (o : Options) (parent? : Option String) (inScript : Bool)
    (id : NodeId) (content : Content) (names : VariableNames) :
    (ofNode o parent? inScript id content names).parts =
      [(id, (ofNode o parent? inScript id content names).script)] := by
  cases content with
  | text payload =>
    rcases ofText_cases o parent? inScript id payload names with
      ⟨events, h, -⟩ | ⟨-, -, h⟩ | ⟨-, -, -, h⟩ <;>
      rw [ofNode, h, single_script] <;> rfl
  | element tag attributes =>
    simp only [ofNode, ofElement]
    split <;> rw [single_script] <;> rfl
  | _ => rfl

/-- The stem of the names stays. -/
theorem Yield.ofNode_stem (o : Options) (parent? : Option String) (inScript : Bool)
    (id : NodeId) (content : Content) (names : VariableNames) :
    (ofNode o parent? inScript id content names).names.stem = names.stem := by
  cases content with
  | text payload =>
    rcases ofText_cases o parent? inScript id payload names with
      ⟨events, h, -⟩ | ⟨-, -, h⟩ | ⟨-, -, -, h⟩ <;>
      rw [ofNode, h] <;> rfl
  | element tag attributes =>
    simp only [ofNode, ofElement]
    split <;> rfl
  | _ => rfl

/-- An eligible element binds itself to the next name, and nothing else binds anything. -/
theorem Yield.ofNode_bindings (o : Options) (parent? : Option String) (inScript : Bool)
    (id : NodeId) (content : Content) (names : VariableNames) :
    (ofNode o parent? inScript id content names).bindings =
      if content.isElement && o.filters.isEligible content.tag? then [(id, names.advance.name)]
      else [] := by
  cases content with
  | text payload =>
    rcases ofText_cases o parent? inScript id payload names with
      ⟨events, h, -⟩ | ⟨-, -, h⟩ | ⟨-, -, -, h⟩ <;>
      rw [ofNode, h] <;> rfl
  | element tag attributes =>
    simp only [ofNode, ofElement, Content.isElement, Content.tag?, Bool.true_and]
    split <;> rfl
  | _ => rfl

theorem Yield.ofNode_bindings_mem {o : Options} {parent? : Option String} {inScript : Bool}
    {id : NodeId} {content : Content} {names : VariableNames} {b : NodeId × String}
    (hb : b ∈ (ofNode o parent? inScript id content names).bindings) : b.1 = id := by
  rw [ofNode_bindings] at hb
  split at hb
  · rw [List.mem_singleton.mp hb]
  · simp at hb

theorem Forest.convert_bindings_mem {o : Options} {parent? : Option String} {inScript : Bool}
    {f : Forest (NodeId × Content)} {names : VariableNames} {b : NodeId × String}
    (hb : b ∈ (f.convert o parent? inScript names).bindings) : b.1 ∈ f.ids := by
  induction f generalizing parent? inScript names with
  | nil => simp [convert] at hb
  | node a kids sibs ihk ihs =>
    obtain ⟨id, content⟩ := a
    simp only [convert, Yield.andThen_bindings, List.mem_append] at hb
    simp only [ids_node, List.mem_cons, List.mem_append]
    rcases hb with (hb | hb) | hb
    · exact .inl (Yield.ofNode_bindings_mem hb)
    · split at hb
      · exact .inr (.inl (ihk hb))
      · simp at hb
    · exact .inr (.inr (ihs hb))

theorem Forest.convert_stem (o : Options) (parent? : Option String) (inScript : Bool)
    (f : Forest (NodeId × Content)) (names : VariableNames) :
    (f.convert o parent? inScript names).names.stem = names.stem := by
  induction f generalizing parent? inScript names with
  | nil => rfl
  | node a kids sibs ihk ihs =>
    obtain ⟨id, content⟩ := a
    simp only [convert, Yield.andThen_names, ihs]
    split
    · rw [ihk, Yield.ofNode_stem]
    · exact Yield.ofNode_stem ..

/-! ## Steps of the walk -/

/-- The steps that a level takes, without the one that leaves it: one for every visited node and
one for every level below it. -/
def Forest.walkSteps (filters : Filters) : Forest (NodeId × Content) → Nat
  | .nil => 0
  | .node (_, content) children siblings =>
    1 + (if filters.descends content then walkSteps filters children + 1 else 0) +
      walkSteps filters siblings

theorem Forest.walkSteps_le (filters : Filters) (f : Forest (NodeId × Content)) :
    f.walkSteps filters ≤ 2 * f.labels.length := by
  induction f with
  | nil => simp [walkSteps]
  | node a kids sibs ihk ihs =>
    simp only [walkSteps, labels, List.length_cons, List.length_append]
    split <;> omega

namespace Progress

/-- Progress with a yield added to it. -/
def add (p : Progress) (y : Yield) : Progress where
  names := y.names
  bindings := ⟨y.bindings.reverse ++ p.bindings.latest⟩
  script := p.script ++ y.script
  events := p.events ++ y.events

@[simp] theorem add_names (p : Progress) (y : Yield) : (p.add y).names = y.names := rfl

@[simp] theorem add_nothing (p : Progress) : p.add (.nothing p.names) = p := by
  simp [add]

@[simp] theorem add_add_nothing (p : Progress) (y : Yield) :
    (p.add y).add (.nothing y.names) = p.add y :=
  add_nothing (p.add y)

theorem add_single (p : Progress) (id : NodeId) (script : List Statement)
    (bindings : List (NodeId × String)) (events : List Event) (names : VariableNames) :
    p.add (.single id script bindings events names) =
      ⟨names, ⟨bindings.reverse ++ p.bindings.latest⟩, p.script ++ script, p.events ++ events⟩ := by
  simp [add, Yield.single, Yield.script]

/-- Lists added one behind the other are added as one. -/
theorem append_list_append {α : Type} (xs : Array α) (l m : List α) :
    xs ++ (l ++ m) = xs ++ l ++ m :=
  Array.toList_inj.mp (by simp)

theorem add_andThen (p : Progress) (y : Yield) (next : VariableNames → Yield) :
    p.add (y.andThen next) = (p.add y).add (next y.names) := by
  simp [add, append_list_append]

/-- What is not bound anew keeps its variable. -/
theorem get?_add {p : Progress} {y : Yield} {id : NodeId} (h : ∀ b ∈ y.bindings, b.1 ≠ id) :
    (p.add y).bindings.get? id = p.bindings.get? id := by
  have hnone : y.bindings.reverse.lookup id = none := by
    rw [List.lookup_eq_none_iff]
    exact fun b hb => bne_iff_ne.mpr (h b (List.mem_reverse.mp hb)).symm
  simp [add, Bindings.get?, List.lookup_append, hnone]

/-- Binding other nodes does not change which variable is found first. -/
theorem findSome?_get?_add {p : Progress} {y : Yield} {ids : List NodeId}
    (h : ∀ b ∈ y.bindings, b.1 ∉ ids) :
    ids.findSome? (p.add y).bindings.get? = ids.findSome? p.bindings.get? := by
  induction ids with
  | nil => rfl
  | cons id ids ih =>
    rw [List.findSome?_cons, List.findSome?_cons,
      get?_add fun b hb hid => h b hb (hid ▸ List.mem_cons_self ..),
      ih fun b hb hid => h b hb (List.mem_cons_of_mem _ hid)]

/-- The children of a node see its own variable first. -/
theorem findSome?_get?_add_ofNode {p : Progress} {o : Options} {parent? : Option String}
    {inScript : Bool} {id : NodeId} {content : Content} {names : VariableNames}
    {up : List NodeId} (hid : id ∉ up) (hfresh : p.bindings.get? id = none)
    (hup : up.findSome? p.bindings.get? = parent?) :
    (id :: up).findSome?
        (p.add (.ofNode o parent? inScript id content names)).bindings.get? =
      (Yield.ofNode o parent? inScript id content names).firstVar?.or parent? := by
  have hrest : up.findSome? (p.add (.ofNode o parent? inScript id content names)).bindings.get? =
      up.findSome? p.bindings.get? :=
    findSome?_get?_add fun b hb => by rwa [Yield.ofNode_bindings_mem hb]
  have hbind := Yield.ofNode_bindings o parent? inScript id content names
  rw [List.findSome?_cons]
  split at hbind
  · simp [add, Bindings.get?, Yield.firstVar?, hbind]
  · have hget : (p.add (.ofNode o parent? inScript id content names)).bindings.get? id =
        p.bindings.get? id := get?_add (by simp [hbind])
    rw [hget, hfresh, hrest, hup]
    simp [Yield.firstVar?, hbind]

end Progress

/-- A visit adds what the recursion gives for the node, if the walk finds the variable and the
script element that the recursion was handed. -/
theorem visit_eq_add {d : Document} {o : Options} {id : NodeId} {content : Content} {p : Progress}
    {parent? : Option String} {inScript : Bool} (hp : p.parentVariable? d id = parent?)
    (hs : d.inScript id = inScript) :
    visit d o id content p = p.add (.ofNode o parent? inScript id content p.names) := by
  cases content with
  | text payload =>
    simp only [visit, visitText, Yield.ofNode, Yield.ofText, hp, hs]
    split
    · simp [Progress.add_single]
    · split
      · simp [Progress.emit, Progress.add_single]
      · cases parent? with
        | some parent => simp [Progress.createText, Progress.emit, Progress.add_single]
        | none =>
          by_cases hk : o.keepRootText
          · simp [hk, Progress.createText, Progress.emit, Progress.add_single]
          · simp [hk, Progress.report, Progress.add_single]
  | element tag attributes =>
    simp only [visit, visitElement, Yield.ofNode, Yield.ofElement, hp]
    split
    · simp [Progress.createElement, Progress.emit, Progress.report, Progress.add_single,
        Progress.append_list_append, Bindings.insert]
    · simp [Progress.add_single]
  | _ => simp [visit, Yield.ofNode, Progress.add_single]

/-! ## The walk is the recursion -/

/-- The nodes above the children of `above`, nearest first. -/
def Document.upFrom (d : Document) : Option NodeId → List NodeId
  | none => []
  | some above => above :: d.ancestors above

theorem Document.Built.ancestors_eq {d : Document} (hd : d.Built) {id : NodeId} {n : Node}
    (hn : d.node? id = some n) : d.ancestors id = d.upFrom n.parent := by
  cases ha : n.parent with
  | none => exact Document.ancestors_eq_nil hn ha
  | some above => exact hd.ancestors_cons hn ha

/-- Whether the children of `above` lie right below a script element. -/
def Document.scriptBelow (d : Document) (above : Option NodeId) : Bool :=
  (above.bind d.content?).any (·.tag? == some .script)

theorem Document.inScript_eq {d : Document} {id : NodeId} {n : Node} (hn : d.node? id = some n) :
    d.inScript id = d.scriptBelow n.parent := by
  simp only [inScript, scriptBelow, hn, Option.bind_some]
  cases n.parent.bind d.content? <;> rfl

theorem Document.scriptBelow_some {d : Document} {id : NodeId} {content : Content}
    (hc : d.content? id = some content) :
    d.scriptBelow (some id) = (content.tag? == some .script) := by
  simp [scriptBelow, hc]

namespace Walk

/-- The node that the next step visits, if it visits one, with the statements that it adds. -/
def stepParts (d : Document) (o : Options) (w : Walk) : List (NodeId × List Statement) :=
  match w.levels with
  | some id :: _ => [(id, (w.step d o).progress.script.toList.drop w.progress.script.size)]
  | _ => []

/-- The nodes visited in so many steps, each with the statements that its visit adds. -/
def parts (d : Document) (o : Options) : Nat → Walk → List (NodeId × List Statement)
  | 0, _ => []
  | n + 1, w => w.stepParts d o ++ parts d o n (w.step d o)

variable {d : Document} {o : Options}

/-- A walk that is not over takes its next step. -/
theorem run_succ (n : Nat) (l : Option NodeId) (outer : List (Option NodeId)) (p : Progress) :
    run d o (n + 1) ⟨l :: outer, p⟩ = run d o n (step d o ⟨l :: outer, p⟩) := rfl

/-- A walk that is over stays as it is. -/
theorem run_nil (n : Nat) (p : Progress) : run d o n ⟨[], p⟩ = ⟨[], p⟩ := by
  cases n <;> rfl

/-- Leaving an exhausted level. -/
theorem run_none (n : Nat) (outer : List (Option NodeId)) (p : Progress) :
    run d o (n + 1) ⟨none :: outer, p⟩ = run d o n ⟨outer, p⟩ := rfl

theorem parts_nil (n : Nat) (p : Progress) : parts d o n ⟨[], p⟩ = [] := by
  induction n with
  | zero => rfl
  | succ n ih => exact ih

theorem parts_none (n : Nat) (outer : List (Option NodeId)) (p : Progress) :
    parts d o (n + 1) ⟨none :: outer, p⟩ = parts d o n ⟨outer, p⟩ := rfl

/-- What holds when the walk comes to a level: its nodes lie below `above`, the bindings give
`parent?` for the nodes above and nothing yet for the nodes of the level. -/
structure Ready (d : Document) (p : Progress) (above : Option NodeId) (parent? : Option String)
    (f : Forest (NodeId × Content)) : Prop where
  linked : d.Linked above f
  nodup : f.ids.Nodup
  notMem_up : ∀ id ∈ f.ids, id ∉ d.upFrom above
  parent : (d.upFrom above).findSome? p.bindings.get? = parent?
  fresh : ∀ id ∈ f.ids, p.bindings.get? id = none

section Ready

variable {p : Progress} {above : Option NodeId} {parent? : Option String} {id : NodeId}
  {content : Content} {kids sibs : Forest (NodeId × Content)}

theorem Ready.visit_eq (hd : d.Built)
    (h : Ready d p above parent? (.node (id, content) kids sibs)) :
    visit d o id content p =
      p.add (.ofNode o parent? (d.scriptBelow above) id content p.names) := by
  have hn := h.linked.1
  refine visit_eq_add ?_ (d.inScript_eq hn)
  rw [Progress.parentVariable?, hd.ancestors_eq hn]
  exact h.parent

/-- After the visit of a node the walk is ready for its children. -/
theorem Ready.children (hd : d.Built)
    (h : Ready d p above parent? (.node (id, content) kids sibs)) (inScript : Bool) :
    Ready d (p.add (.ofNode o parent? inScript id content p.names)) (some id)
      ((Yield.ofNode o parent? inScript id content p.names).firstVar?.or parent?) kids := by
  have hanc : d.ancestors id = d.upFrom above := hd.ancestors_eq h.linked.1
  have hnd := h.nodup
  simp only [Forest.ids_node, List.nodup_cons, List.nodup_append, List.mem_append,
    not_or] at hnd
  obtain ⟨⟨hidk, -⟩, hnk, -⟩ := hnd
  refine ⟨h.linked.2.1, hnk, ?_, ?_, ?_⟩
  · intro i hi
    rw [Document.upFrom, hanc, List.mem_cons, not_or]
    exact ⟨fun he => hidk (he ▸ hi), h.notMem_up i (by simp [hi])⟩
  · rw [Document.upFrom, hanc]
    exact Progress.findSome?_get?_add_ofNode (h.notMem_up id (by simp)) (h.fresh id (by simp))
      h.parent
  · intro i hi
    have hne : id ≠ i := fun he => hidk (he ▸ hi)
    rw [Progress.get?_add fun b hb => Yield.ofNode_bindings_mem hb ▸ hne]
    exact h.fresh i (by simp [hi])

/-- After a tree the walk is ready for the siblings behind it. -/
theorem Ready.siblings {y : Yield} (h : Ready d p above parent? (.node (id, content) kids sibs))
    (hy : ∀ b ∈ y.bindings, b.1 ∈ Forest.ids (.node (id, content) kids .nil)) :
    Ready d (p.add y) above parent? sibs := by
  have hnd := h.nodup
  simp only [Forest.ids_node, List.nodup_cons, List.nodup_append, List.mem_append,
    not_or] at hnd
  obtain ⟨⟨-, hids⟩, -, hns, hks⟩ := hnd
  simp only [Forest.ids_node, Forest.ids_nil, List.append_nil, List.mem_cons] at hy
  refine ⟨h.linked.2.2, hns, fun i hi => h.notMem_up i (by simp [hi]), ?_, ?_⟩
  · rw [Progress.findSome?_get?_add fun b hb => ?_]
    · exact h.parent
    · refine h.notMem_up b.1 ?_
      simp only [Forest.ids_node, List.mem_cons, List.mem_append]
      rcases hy b hb with hb | hb
      · exact .inl hb
      · exact .inr (.inl hb)
  · intro i hi
    rw [Progress.get?_add fun b hb he => ?_]
    · exact h.fresh i (by simp [hi])
    · rcases hy b hb with hb | hb
      · exact hids (hb ▸ he ▸ hi)
      · exact hks _ hb _ hi he

/-- The step that visits a node. -/
theorem Ready.step_eq (hd : d.Built) (outer : List (Option NodeId))
    (h : Ready d p above parent? (.node (id, content) kids sibs)) :
    step d o ⟨some id :: outer, p⟩ =
      ⟨if o.filters.descends content then kids.firstId? :: sibs.firstId? :: outer
        else sibs.firstId? :: outer,
        p.add (.ofNode o parent? (d.scriptBelow above) id content p.names)⟩ := by
  simp only [step, h.linked.1, h.visit_eq hd]

/-- The part of a visited node is what the node gives by itself. -/
theorem Ready.stepParts_eq (hd : d.Built) (outer : List (Option NodeId))
    (h : Ready d p above parent? (.node (id, content) kids sibs)) :
    stepParts d o ⟨some id :: outer, p⟩ =
      (Yield.ofNode o parent? (d.scriptBelow above) id content p.names).parts := by
  simp only [stepParts, h.step_eq hd, Yield.ofNode_parts]
  simp [Progress.add, List.drop_left']

end Ready

/-- **One level.** The walk over a level adds what the recursion gives for it, and visits the nodes
that the recursion comes to. -/
theorem run_level (hd : d.Built) {f : Forest (NodeId × Content)} {above : Option NodeId}
    {parent? : Option String} {p : Progress} (h : Ready d p above parent? f)
    (outer : List (Option NodeId)) (n : Nat) :
    let y := f.convert o parent? (d.scriptBelow above) p.names
    run d o (f.walkSteps o.filters + n) ⟨f.firstId? :: outer, p⟩ =
        run d o n ⟨none :: outer, p.add y⟩ ∧
      parts d o (f.walkSteps o.filters + n) ⟨f.firstId? :: outer, p⟩ =
        y.parts ++ parts d o n ⟨none :: outer, p.add y⟩ := by
  induction f generalizing above parent? p outer n with
  | nil => simp [Forest.walkSteps, Forest.convert]
  | node a kids sibs ihk ihs =>
    obtain ⟨id, content⟩ := a
    -- the node, and the level of its children if it is entered
    have htree : ∀ m,
        let steps := 1 +
          (if o.filters.descends content then kids.walkSteps o.filters + 1 else 0) + m
        let y := Forest.convert o parent? (d.scriptBelow above) (.node (id, content) kids .nil)
          p.names
        run d o steps ⟨some id :: outer, p⟩ = run d o m ⟨sibs.firstId? :: outer, p.add y⟩ ∧
          parts d o steps ⟨some id :: outer, p⟩ =
            y.parts ++ parts d o m ⟨sibs.firstId? :: outer, p.add y⟩ := by
      intro m
      simp only
      rw [Forest.convert_node_nil, Progress.add_andThen, Yield.andThen_parts, Nat.add_assoc,
        Nat.add_comm 1, run_succ, parts, h.stepParts_eq hd, h.step_eq hd, List.append_assoc]
      by_cases hdesc : o.filters.descends content
      · have hscript := Document.scriptBelow_some (Document.content?_of_node? h.linked.1)
        obtain ⟨hrun, hparts⟩ := ihk (h.children hd _) (sibs.firstId? :: outer) (1 + m)
        simp only [if_pos hdesc]
        rw [Nat.add_assoc, hrun, hparts, Nat.add_comm 1, run_none, parts_none, hscript]
        exact ⟨rfl, rfl⟩
      · simp [hdesc]
    obtain ⟨hrun, hparts⟩ := htree (sibs.walkSteps o.filters + n)
    obtain ⟨hruns, hpartss⟩ :=
      ihs (h.siblings fun b hb => Forest.convert_bindings_mem hb) outer n
    simp only
    rw [Forest.walkSteps, Nat.add_assoc, Forest.firstId?_node, hrun, hparts, hruns, hpartss,
      Progress.add_names, Forest.convert_node o parent? _ _ kids sibs, Progress.add_andThen,
      Yield.andThen_parts, List.append_assoc]
    exact ⟨rfl, rfl⟩

end Walk

/-! ## Conversions -/

namespace Document

variable {d : Document}

/-- The nodes that a conversion visits, in order, each with the statements that its visit adds. -/
def visits (d : Document) (o : Options) (names : VariableNames) :
    List (NodeId × List Statement) :=
  Walk.parts d o (2 * d.size) (Walk.start d names)

/-- The document node stands above everything else. -/
theorem Built.forest_eq (hd : d.Built) : d.forest = .node (root, .document) d.trees .nil := by
  obtain ⟨kids, hf⟩ := hd.represents.top
  rw [trees, hf]

theorem Built.trees_sublist (hd : d.Built) : d.trees.ids.Sublist d.forest.ids := by
  rw [hd.forest_eq, Forest.ids_node, Forest.ids_nil, List.append_nil]
  exact List.sublist_cons_self _ _

theorem Built.linked_trees (hd : d.Built) : d.Linked (some root) d.trees := by
  have h := hd.represents.linked
  rw [hd.forest_eq] at h
  exact h.2.1

theorem Built.node?_root (hd : d.Built) :
    ∃ n, d.node? root = some n ∧ n.content = .document ∧ n.parent = none ∧
      n.firstChild = d.trees.firstId? := by
  have h := hd.represents.linked
  rw [hd.forest_eq] at h
  exact ⟨_, h.1, rfl, rfl, rfl⟩

theorem Built.content?_root (hd : d.Built) : d.content? root = some .document := by
  obtain ⟨n, hn, hcontent, -⟩ := hd.node?_root
  rw [content?_of_node? hn, hcontent]

theorem Built.scriptBelow_root (hd : d.Built) : d.scriptBelow (some root) = false := by
  simp [scriptBelow, hd.content?_root, Content.tag?]

theorem Built.upFrom_root (hd : d.Built) : d.upFrom (some root) = [root] := by
  obtain ⟨n, hn, -, hparent, -⟩ := hd.node?_root
  rw [upFrom, ancestors_eq_nil hn hparent]

theorem Built.nodup_ids (hd : d.Built) : root ∉ d.trees.ids ∧ d.trees.ids.Nodup := by
  have h := hd.represents.nodup
  rw [hd.forest_eq, Forest.ids_node, Forest.ids_nil, List.append_nil] at h
  exact List.nodup_cons.mp h

/-- The number of nodes below the document node. -/
theorem Built.length_trees (hd : d.Built) : d.trees.ids.length + 1 = d.size := by
  have hlength := hd.represents.length_labels
  rw [hd.forest_eq, Forest.labels, Forest.labels, List.append_nil, List.length_cons] at hlength
  rwa [Forest.ids, List.length_map]

/-- The walk of a whole conversion, with its fuel, ends with what the recursion gives. -/
theorem Built.run_start (hd : d.Built) (o : Options) (names : VariableNames) :
    Walk.run d o (2 * d.size) (Walk.start d names) =
        ⟨[], (Progress.start names).add (d.trees.convert o none false names)⟩ ∧
      d.visits o names = (d.trees.convert o none false names).parts := by
  obtain ⟨n, hn, -, -, hfirst⟩ := hd.node?_root
  have hready : Walk.Ready d (Progress.start names) (some root) none d.trees := by
    refine ⟨hd.linked_trees, hd.nodup_ids.2, ?_, ?_, fun _ _ => rfl⟩
    · intro i hi
      rw [hd.upFrom_root, List.mem_singleton]
      exact fun he => hd.nodup_ids.1 (he ▸ hi)
    · rw [hd.upFrom_root]; rfl
  have hlength := hd.length_trees
  have hsteps := d.trees.walkSteps_le o.filters
  rw [Forest.ids, List.length_map] at hlength
  obtain ⟨m, hm⟩ : ∃ m, 2 * d.size = d.trees.walkSteps o.filters + (m + 1) :=
    ⟨2 * d.size - d.trees.walkSteps o.filters - 1, by omega⟩
  have hstart : Walk.start d names = ⟨[d.trees.firstId?], .start names⟩ := by
    simp [Walk.start, hn, hfirst]
  obtain ⟨hrun, hparts⟩ := Walk.run_level (o := o) hd hready [] (m + 1)
  rw [visits, hstart, hm, hrun, hparts, Walk.run_none, Walk.run_nil, Walk.parts_none,
    Walk.parts_nil, hd.scriptBelow_root, List.append_nil]
  exact ⟨rfl, rfl⟩

/-- **The walk is the recursion.** -/
theorem Built.convert_eq (hd : d.Built) (o : Options) (names : VariableNames) :
    d.convert o names = d.convertByTree o names := by
  simp only [convert, (hd.run_start o names).1]
  simp [convertByTree, Progress.add, Progress.start, Bindings.empty, Bindings.size]

end Document

namespace Session

variable {d : Document}

/-- What a document yields in a session. -/
def yield (s : Session) (d : Document) : Yield :=
  d.trees.convert s.options none false s.names

theorem convert_script (s : Session) (hd : d.Built) :
    (s.convert d).1.script = (s.yield d).script := by
  simp only [convert, hd.convert_eq]
  rfl

theorem convert_bindings (s : Session) (hd : d.Built) :
    (s.convert d).1.bindings.toList = (s.yield d).bindings := by
  simp only [convert, hd.convert_eq]
  exact List.reverse_reverse _

theorem convert_events (s : Session) (hd : d.Built) :
    (s.convert d).1.events = (s.yield d).events ++
      [.converted d.size (s.yield d).bindings.length
        (renderScript (s.yield d).script).utf8ByteSize] := by
  simp only [convert, hd.convert_eq]
  rfl

theorem convert_session (s : Session) (hd : d.Built) :
    (s.convert d).2 =
      { s with names := (s.yield d).names, output := s.output.write (s.yield d).script } := by
  simp only [convert, hd.convert_eq]
  rfl

end Session

/-- **The loop agrees with the plain recursion.** In any session a conversion gives the text, the
bindings, the reports and the names of the recursion over the tree of the document. -/
theorem session_convert_eq_recursion {d : Document} (hd : d.Built) (s : Session) :
    s.convert d =
      (d.convertByTree s.options s.names,
        { s with
          names := (d.convertByTree s.options s.names).names
          output := s.output.add (d.convertByTree s.options s.names).text }) := by
  simp only [Session.convert, hd.convert_eq]
  rfl

theorem session_convert_eq_recursion_specimen :
    Document.specimen.Built ∧
    (Session.new .default).convert .specimen =
      (Document.specimen.convertByTree .default (.new "_"),
        { Session.new .default with
          names := (Document.specimen.convertByTree .default (.new "_")).names
          output := Output.empty.add
            (Document.specimen.convertByTree .default (.new "_")).text }) :=
  ⟨Document.specimen_built, session_convert_eq_recursion Document.specimen_built (.new .default)⟩

end DomScript
