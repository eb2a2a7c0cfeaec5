/-
DomScript.Proofs.Conversion.Reach — who is emitted, told from the ancestors alone.

The recursion comes to the nodes of `Forest.reached`, in document order. Whether it comes to a node
depends on the nodes above it (`Reached`), and what the node then gives on the node itself, on its
parent, and on whether an element above it was created:

* `Forest.mem_reached_iff` — the recursion comes to a node iff nothing above it stops the walk;
* `Forest.convert_bindings` — the bound nodes are the eligible elements among those;
* `Forest.exists_visits` — the recursion, visit by visit (`Forest.convert_part` is one of them);
* `convert_reach` — the same of a whole conversion.
-/
import DomScript.Proofs.Conversion.Recursion

namespace DomScript

/-! ## Filters -/

namespace Filters

variable (f : Filters) (tag : Tag)

/-- The elements that are created: those of `includes`, if it has any, and otherwise all that are
not in `excludes`. -/
def Admits : Prop :=
  if f.includes.tags = [] then tag ∉ f.excludes.tags else tag ∈ f.includes.tags

theorem isEligible_iff : f.isEligible (some tag) = true ↔ f.Admits tag := by
  unfold isEligible Admits
  by_cases h : f.includes.tags = []
  · simp [TagSet.covers, TagSet.contains, TagSet.isEmpty, h]
  · simp [TagSet.covers, TagSet.contains, TagSet.isEmpty, h]

/-- What a walk goes into: anything but texts and ignored elements. -/
def Opens (content : Content) : Prop :=
  (∀ payload, content ≠ .text payload) ∧
    ∀ tag attributes, content = .element tag attributes → tag ∉ f.ignores.tags

theorem descends_iff (content : Content) : f.descends content = true ↔ f.Opens content := by
  unfold Opens
  cases content <;> simp [descends, isIgnored, TagSet.covers, TagSet.contains]

end Filters

/-! ## Nodes and their ancestors -/

namespace Document

variable (d : Document) (f : Filters) (id : NodeId)

/-- No ancestor is a text or an ignored element. -/
def Reached : Prop :=
  ∀ above ∈ d.ancestors id, ∀ content, d.content? above = some content → f.Opens content

/-- An element that the filters admit. -/
def Admitted : Prop :=
  ∃ tag attributes, d.content? id = some (.element tag attributes) ∧ f.Admits tag

/-- The parent is a script element. -/
def BelowScript : Prop :=
  ∃ n above attributes, d.node? id = some n ∧ n.parent = some above ∧
    d.content? above = some (.element .script attributes)

theorem belowScript_iff : d.BelowScript id ↔ d.inScript id = true := by
  unfold BelowScript
  cases hn : d.node? id with
  | none => simp [inScript, hn]
  | some n =>
    rw [inScript_eq hn, scriptBelow]
    cases ha : n.parent with
    | none => simp [ha]
    | some above =>
      simp only [Option.bind_some]
      cases hc : d.content? above with
      | none => simp [ha, hc]
      | some content => cases content <;> simp [ha, hc, Content.tag?]

end Document

/-- What lies above a level lies above each of its nodes. -/
theorem Document.Linked.mem_ancestors {d : Document} (hd : d.Built)
    {f : Forest (NodeId × Content)} {above : Option NodeId} (h : d.Linked above f) {id : NodeId}
    (hid : id ∈ f.ids) : ∀ a ∈ d.upFrom above, a ∈ d.ancestors id := by
  induction f generalizing above with
  | nil => simp at hid
  | node b kids sibs ihk ihs =>
    obtain ⟨i, content⟩ := b
    obtain ⟨hn, hk, hs⟩ := h
    intro a ha
    simp only [Forest.ids_node, List.mem_cons, List.mem_append] at hid
    have hanc : d.ancestors i = d.upFrom above := hd.ancestors_eq hn
    rcases hid with rfl | hid | hid
    · rwa [hanc]
    · refine ihk hk hid a ?_
      rw [Document.upFrom, hanc]
      exact List.mem_cons_of_mem _ ha
    · exact ihs hs hid a ha

/-- If nothing above a node stops the walk, and the node does not, then nothing above its children
does. -/
theorem Document.Built.opens_below {d : Document} (hd : d.Built) {filters : Filters} {id : NodeId}
    {n : Node} (hn : d.node? id = some n) (hdesc : filters.descends n.content = true)
    (hup : ∀ a ∈ d.upFrom n.parent, ∀ content, d.content? a = some content →
      filters.Opens content) :
    ∀ a ∈ d.upFrom (some id), ∀ content, d.content? a = some content → filters.Opens content := by
  intro a ha content hc
  rw [Document.upFrom, hd.ancestors_eq hn, List.mem_cons] at ha
  rcases ha with rfl | ha
  · obtain rfl : n.content = content :=
      Option.some.inj ((Document.content?_of_node? hn).symm.trans hc)
    exact (filters.descends_iff _).mp hdesc
  · exact hup a ha content hc

/-! ## Where the recursion comes to -/

namespace Forest

/-- The nodes that the recursion comes to. -/
def reached (f : Filters) : Forest (NodeId × Content) → List (NodeId × Content)
  | nil => []
  | node (id, content) children siblings =>
    (id, content) :: ((if f.descends content then reached f children else []) ++
      reached f siblings)

theorem reached_sublist (f : Filters) (g : Forest (NodeId × Content)) :
    (g.reached f).Sublist g.labels := by
  induction g with
  | nil => exact .slnil
  | node a kids sibs ihk ihs =>
    obtain ⟨id, content⟩ := a
    simp only [reached, labels]
    refine List.Sublist.cons_cons _ (List.Sublist.append ?_ ihs)
    split
    · exact ihk
    · exact List.nil_sublist _

/-- Every visited node has one part. -/
theorem convert_parts (o : Options) (parent? : Option String) (inScript : Bool)
    (f : Forest (NodeId × Content)) (names : VariableNames) :
    (f.convert o parent? inScript names).parts.map Prod.fst =
      (f.reached o.filters).map Prod.fst := by
  induction f generalizing parent? inScript names with
  | nil => rfl
  | node a kids sibs ihk ihs =>
    obtain ⟨id, content⟩ := a
    simp only [convert, reached, Yield.andThen_parts, Yield.ofNode_parts, List.map_append,
      List.map_cons, List.map_nil, ihs]
    by_cases h : o.filters.descends content
    · simp [h, ihk]
    · simp [h]

/-- The bound nodes, in order. -/
theorem convert_bindings (o : Options) (parent? : Option String) (inScript : Bool)
    (f : Forest (NodeId × Content)) (names : VariableNames) :
    (f.convert o parent? inScript names).bindings.map Prod.fst =
      ((f.reached o.filters).filter fun a =>
        a.2.isElement && o.filters.isEligible a.2.tag?).map Prod.fst := by
  induction f generalizing parent? inScript names with
  | nil => rfl
  | node a kids sibs ihk ihs =>
    obtain ⟨id, content⟩ := a
    simp only [convert, reached, Yield.andThen_bindings, Yield.ofNode_bindings, List.map_append,
      ihs, List.filter_cons, List.filter_append]
    by_cases h : o.filters.descends content <;>
      by_cases he : (content.isElement && o.filters.isEligible content.tag?) = true <;>
      simp [h, he, ihk]

variable {d : Document}

/-- **The recursion comes to a node** iff nothing above it stops the walk. -/
theorem mem_reached_iff (hd : d.Built) (filters : Filters) {f : Forest (NodeId × Content)}
    {above : Option NodeId} (h : d.Linked above f)
    (hup : ∀ a ∈ d.upFrom above, ∀ content, d.content? a = some content → filters.Opens content)
    (id : NodeId) :
    id ∈ (f.reached filters).map Prod.fst ↔ id ∈ f.ids ∧ d.Reached filters id := by
  induction f generalizing above with
  | nil => simp [reached]
  | node a kids sibs ihk ihs =>
    obtain ⟨i, content⟩ := a
    have hl := h
    obtain ⟨hn, hk, hs⟩ := h
    have hanc : d.ancestors i = d.upFrom above := hd.ancestors_eq hn
    have hcontent : d.content? i = some content := Document.content?_of_node? hn
    have hhere : d.Reached filters i := by
      unfold Document.Reached
      rwa [hanc]
    have hkids : (id ∈ (if filters.descends content then reached filters kids else []).map
        Prod.fst) ↔ id ∈ kids.ids ∧ d.Reached filters id := by
      by_cases hdesc : filters.descends content
      · rw [if_pos hdesc]
        exact ihk hk (hd.opens_below hn hdesc hup)
      · -- the node is above all of its children
        rw [if_neg hdesc]
        constructor
        · intro hid
          simp at hid
        rintro ⟨hid, hr⟩
        refine absurd ?_ hdesc
        have hmem : i ∈ d.ancestors id := hk.mem_ancestors hd hid i (by simp [Document.upFrom])
        exact (filters.descends_iff content).mpr (hr i hmem content hcontent)
    rw [reached, List.map_cons, List.map_append, List.mem_cons, List.mem_append, hkids, ihs hs hup,
      ids_node, List.mem_cons, List.mem_append]
    constructor
    · rintro (rfl | hid | hid)
      · exact ⟨.inl rfl, hhere⟩
      · exact ⟨.inr (.inl hid.1), hid.2⟩
      · exact ⟨.inr (.inr hid.1), hid.2⟩
    · rintro ⟨rfl | hid | hid, hr⟩
      · exact .inl rfl
      · exact .inr (.inl ⟨hid, hr⟩)
      · exact .inr (.inr ⟨hid, hr⟩)

/-! ## What a visited node gives -/

/-- What is handed down to a node below the nodes `up`: a variable if one of these was created, and
then one under the stem. -/
structure Handed (d : Document) (filters : Filters) (stem : String) (up : List NodeId)
    (held? : Option String) : Prop where
  isSome_iff : held?.isSome ↔ ∃ a ∈ up, d.Admitted filters a
  named : ∀ var ∈ held?, ∃ letters, var = VariableNames.name ⟨stem, letters⟩

/-- What is handed down to the children of a node. -/
theorem Handed.children (hd : d.Built) {o : Options} {parent? : Option String}
    {inScript : Bool} {id : NodeId} {content : Content} {names : VariableNames}
    {above : Option NodeId} {n : Node} (hn : d.node? id = some n) (hc : n.content = content)
    (ha : n.parent = above)
    (h : Handed d o.filters names.stem (d.upFrom above) parent?) :
    Handed d o.filters names.stem (d.upFrom (some id))
      ((Yield.ofNode o parent? inScript id content names).firstVar?.or parent?) := by
  have hcontent : d.content? id = some content := hc ▸ Document.content?_of_node? hn
  have hbind := Yield.ofNode_bindings o parent? inScript id content names
  have hup : d.upFrom (some id) = id :: d.upFrom above := by
    rw [Document.upFrom, hd.ancestors_eq hn, ha]
  have hadmitted : d.Admitted o.filters id ↔
      (content.isElement && o.filters.isEligible content.tag?) = true := by
    unfold Document.Admitted
    rw [hcontent]
    cases content <;>
      simp [Content.isElement, Content.tag?, ← o.filters.isEligible_iff]
  rw [hup]
  split at hbind
  · rename_i he
    have hfirst : (Yield.ofNode o parent? inScript id content names).firstVar? =
        some names.advance.name := by
      simp [Yield.firstVar?, hbind]
    rw [hfirst]
    refine ⟨?_, ?_⟩
    · simpa using .inl (hadmitted.mpr he)
    · rintro var ⟨⟩
      exact ⟨names.advance.letters, rfl⟩
  · rename_i he
    have hfirst : (Yield.ofNode o parent? inScript id content names).firstVar? = none := by
      simp [Yield.firstVar?, hbind]
    rw [hfirst]
    refine ⟨?_, h.named⟩
    rw [Option.none_or, h.isSome_iff]
    simp [hadmitted, he]

end Forest

/-- A visit of the recursion: the node with what it holds, the variable that is handed down to it,
and the names that it is given. -/
structure Visit where
  id : NodeId
  content : Content
  held? : Option String
  given : VariableNames

/-- What a visit gives. -/
def Visit.yield (d : Document) (o : Options) (v : Visit) : Yield :=
  .ofNode o v.held? (d.inScript v.id) v.id v.content v.given

/-- A yield that consists of what the visits give, one behind the other. -/
structure Yield.MadeOf (d : Document) (o : Options) (y : Yield) (visits : List Visit) : Prop where
  parts : y.parts = visits.flatMap fun v => (v.yield d o).parts
  bindings : y.bindings = visits.flatMap fun v => (v.yield d o).bindings
  events : y.events = visits.flatMap fun v => (v.yield d o).events

namespace Yield

variable {d : Document} {o : Options}

theorem madeOf_nothing (names : VariableNames) : (nothing names).MadeOf d o [] :=
  ⟨rfl, rfl, rfl⟩

theorem madeOf_visit (v : Visit) : (v.yield d o).MadeOf d o [v] := by
  constructor <;> rw [List.flatMap_singleton]

theorem MadeOf.andThen {y : Yield} {next : VariableNames → Yield} {visits more : List Visit}
    (h : y.MadeOf d o visits) (hnext : (next y.names).MadeOf d o more) :
    (y.andThen next).MadeOf d o (visits ++ more) := by
  constructor
  · rw [andThen_parts, h.parts, hnext.parts, List.flatMap_append]
  · rw [andThen_bindings, h.bindings, hnext.bindings, List.flatMap_append]
  · rw [andThen_events, h.events, hnext.events, List.flatMap_append]

end Yield

namespace Forest

variable {d : Document}

/-- **The recursion, visit by visit.** It visits the nodes that it comes to, in order, and hands to
each what the created nodes above make of it. -/
theorem exists_visits (hd : d.Built) {o : Options} {parent? : Option String}
    {f : Forest (NodeId × Content)} {names : VariableNames} {above : Option NodeId} {stem : String}
    (h : d.Linked above f) (hstem : names.stem = stem)
    (hh : Handed d o.filters stem (d.upFrom above) parent?) :
    ∃ visits : List Visit,
      visits.map (fun v => (v.id, v.content)) = f.reached o.filters ∧
      (∀ v ∈ visits, v.given.stem = stem ∧ Handed d o.filters stem (d.ancestors v.id) v.held?) ∧
      (f.convert o parent? (d.scriptBelow above) names).MadeOf d o visits := by
  induction f generalizing above parent? names with
  | nil => exact ⟨[], rfl, by simp, Yield.madeOf_nothing names⟩
  | node a kids sibs ihk ihs =>
    obtain ⟨id, content⟩ := a
    obtain ⟨hn, hk, hs⟩ := h
    have hcontent : d.content? id = some content := Document.content?_of_node? hn
    let first : Visit := ⟨id, content, parent?, names⟩
    have hfirst : first.given.stem = stem ∧
        Handed d o.filters stem (d.ancestors first.id) first.held? :=
      ⟨hstem, by rwa [hd.ancestors_eq hn]⟩
    have hyield : first.yield d o =
        Yield.ofNode o parent? (d.scriptBelow above) id content names := by
      rw [← d.inScript_eq hn]
      rfl
    -- the visits below the node, if the walk goes into it
    obtain ⟨below, hbelow, hbelowHeld, hbelowMade⟩ : ∃ visits : List Visit,
        visits.map (fun v => (v.id, v.content)) =
          (if o.filters.descends content then reached o.filters kids else []) ∧
        (∀ v ∈ visits,
          v.given.stem = stem ∧ Handed d o.filters stem (d.ancestors v.id) v.held?) ∧
        (convert o parent? (d.scriptBelow above) (.node (id, content) kids .nil) names).MadeOf d o
          (first :: visits) := by
      rw [convert_node_nil, ← hyield]
      split
      · rw [← Document.scriptBelow_some hcontent, hyield]
        subst hstem
        obtain ⟨visits, hids, hheld, hmade⟩ :=
          ihk hk (Yield.ofNode_stem ..) (hh.children hd hn rfl rfl)
        exact ⟨visits, hids, hheld, (hyield ▸ Yield.madeOf_visit first).andThen hmade⟩
      · exact ⟨[], rfl, by simp, (Yield.madeOf_visit first).andThen (Yield.madeOf_nothing _)⟩
    -- and those behind it
    obtain ⟨behind, hbehind, hbehindHeld, hbehindMade⟩ :=
      ihs hs ((convert_stem o parent? (d.scriptBelow above) (.node (id, content) kids .nil)
        names).trans hstem) hh
    refine ⟨first :: (below ++ behind), ?_, ?_, ?_⟩
    · rw [List.map_cons, List.map_append, hbelow, hbehind, reached]
    · intro v hv
      rcases List.mem_cons.mp hv with rfl | hv
      · exact hfirst
      · rcases List.mem_append.mp hv with hv | hv
        · exact hbelowHeld v hv
        · exact hbehindHeld v hv
    · rw [convert_node]
      exact hbelowMade.andThen hbehindMade

/-- **The part of a visited node** is what the node gives below its nearest created ancestor, if it
has one, and right below its parent. -/
theorem convert_part (hd : d.Built) {o : Options} {parent? : Option String}
    {f : Forest (NodeId × Content)} {names : VariableNames} {above : Option NodeId}
    {stem : String} (h : d.Linked above f) (hstem : names.stem = stem)
    (hh : Handed d o.filters stem (d.upFrom above) parent?) {id : NodeId} {part : List Statement}
    (hpart : (id, part) ∈ (f.convert o parent? (d.scriptBelow above) names).parts) :
    ∃ content held? given, d.content? id = some content ∧ given.stem = stem ∧
      Handed d o.filters stem (d.ancestors id) held? ∧
      part = (Yield.ofNode o held? (d.inScript id) id content given).script := by
  obtain ⟨visits, hreached, hvisits, hmade⟩ := exists_visits hd h hstem hh
  rw [hmade.parts, List.mem_flatMap] at hpart
  obtain ⟨v, hv, hpart⟩ := hpart
  rw [Visit.yield, Yield.ofNode_parts, List.mem_singleton] at hpart
  obtain ⟨rfl, rfl⟩ := Prod.mk.inj hpart
  have hlabel : (v.id, v.content) ∈ f.labels := by
    refine (reached_sublist o.filters f).subset ?_
    rw [← hreached]
    exact List.mem_map_of_mem (f := fun v : Visit => (v.id, v.content)) hv
  obtain ⟨hgiven, hheld⟩ := hvisits v hv
  exact ⟨v.content, v.held?, v.given, h.content?_eq hlabel, hgiven, hheld, rfl⟩

end Forest

section Text

variable {o : Options} {held? : Option String} {inScript : Bool} {id : NodeId}
  {payload text : String} {names : VariableNames}

/-- When a text becomes a text node, -/
theorem Yield.createText_mem_ofText :
    (∃ var, .createText var text ∈ (ofText o held? inScript id payload names).script) ↔
      Text.trim payload.toList ≠ [] ∧ inScript = false ∧ (held?.isSome ∨ o.keepRootText = true) ∧
        text = .ofList (Text.trim payload.toList) := by
  rcases ofText_cases o held? inScript id payload names with
    ⟨events, h, hcond⟩ | ⟨hne, hs, h⟩ | ⟨hne, hs, hheld, h⟩
  · rw [h, single_script]
    rcases hcond with hblank | ⟨hs, hnone, hkeep⟩
    · simp [hblank]
    · simp [hnone, hkeep]
  · rw [h, single_script]
    simp [hs]
  · rw [h, single_script]
    simp [hne, hs, hheld]

/-- and when it becomes code. -/
theorem Yield.code_mem_ofText :
    .code text ∈ (ofText o held? inScript id payload names).script ↔
      Text.trim payload.toList ≠ [] ∧ inScript = true ∧
        text = .ofList (Text.trim payload.toList) := by
  rcases ofText_cases o held? inScript id payload names with
    ⟨events, h, hcond⟩ | ⟨hne, hs, h⟩ | ⟨hne, hs, hheld, h⟩
  · rw [h, single_script]
    rcases hcond with hblank | ⟨hs, -, -⟩
    · simp [hblank]
    · simp [hs]
  · rw [h, single_script]
    simp [hne, hs]
  · rw [h, single_script]
    simp [hs]

end Text

/-! ## Whole documents -/

namespace Document

variable {d : Document}

/-- The ancestors of an ancestor are ancestors. -/
theorem Built.ancestors_trans (hd : d.Built) {id a b : NodeId} (ha : a ∈ d.ancestors id)
    (hb : b ∈ d.ancestors a) : b ∈ d.ancestors id := by
  induction id using Nat.strongRecOn with
  | ind id ih =>
    cases hn : d.node? id with
    | none => simp [ancestors, hn, ancestorsFrom] at ha
    | some n =>
      cases hp : n.parent with
      | none => simp [ancestors_eq_nil hn hp] at ha
      | some above =>
        rw [hd.ancestors_cons hn hp, List.mem_cons] at ha ⊢
        rcases ha with rfl | ha
        · exact .inr hb
        · exact .inr (ih above (hd.parent_lt hn hp) ha)

/-- Where the walk comes to, it came to all that is above. -/
theorem Built.reached_of_mem_ancestors (hd : d.Built) {f : Filters} {id a : NodeId}
    (h : d.Reached f id) (ha : a ∈ d.ancestors id) : d.Reached f a :=
  fun b hb => h b (hd.ancestors_trans ha hb)

theorem Built.opens_root (hd : d.Built) (f : Filters) :
    ∀ a ∈ d.upFrom (some root), ∀ content, d.content? a = some content → f.Opens content := by
  intro a ha content hc
  rw [hd.upFrom_root, List.mem_singleton] at ha
  rw [ha, hd.content?_root] at hc
  obtain rfl := Option.some.inj hc
  simp [Filters.Opens]

/-- All nodes but the document node are below it. -/
theorem Built.mem_trees (hd : d.Built) {id : NodeId} {content : Content}
    (hc : d.content? id = some content) (hne : content ≠ .document) : id ∈ d.trees.ids := by
  obtain ⟨n, hn, -⟩ := Option.map_eq_some_iff.mp hc
  have hid : id ∈ d.forest.ids := (hd.represents.mem_ids id).mpr (lt_size_of_node? hn)
  rw [hd.forest_eq, Forest.ids_node, Forest.ids_nil, List.append_nil, List.mem_cons] at hid
  refine hid.resolve_left ?_
  rintro rfl
  exact hne (Option.some.inj (hc.symm.trans hd.content?_root))

/-- Nothing is handed down to the nodes right below the document node. -/
theorem Built.handed_root (hd : d.Built) (f : Filters) (stem : String) :
    Forest.Handed d f stem (d.upFrom (some root)) none :=
  ⟨by simp [hd.upFrom_root, Admitted, hd.content?_root], by simp⟩

/-- Where the recursion comes to in a whole document. -/
theorem Built.mem_reached_trees (hd : d.Built) (f : Filters) (id : NodeId) :
    id ∈ (d.trees.reached f).map Prod.fst ↔ id ∈ d.trees.ids ∧ d.Reached f id :=
  Forest.mem_reached_iff hd f hd.linked_trees (hd.opens_root f) id

theorem Built.visits_sublist (hd : d.Built) (o : Options) (names : VariableNames) :
    ((d.visits o names).map Prod.fst).Sublist d.trees.ids := by
  rw [(hd.run_start o names).2, Forest.convert_parts]
  exact (Forest.reached_sublist _ _).map _

/-- **The visited nodes** are those that nothing above keeps the walk from, in document order. -/
theorem Built.visits_ids (hd : d.Built) (o : Options) (names : VariableNames) :
    ((d.visits o names).map Prod.fst).Sublist d.forest.ids ∧
      ∀ id, id ∈ (d.visits o names).map Prod.fst ↔ id ∈ d.trees.ids ∧ d.Reached o.filters id := by
  refine ⟨(hd.visits_sublist o names).trans hd.trees_sublist, ?_⟩
  rw [(hd.run_start o names).2, Forest.convert_parts]
  exact hd.mem_reached_trees o.filters

theorem Built.reached_of_visited (hd : d.Built) {o : Options} {names : VariableNames} {id : NodeId}
    {part : List Statement} (hpart : (id, part) ∈ d.visits o names) : d.Reached o.filters id :=
  ((hd.visits_ids o names).2 id |>.mp (List.mem_map_of_mem hpart)).2

/-- **The bound nodes** are the admitted elements among the visited nodes, in document order. -/
theorem Built.bound_ids (hd : d.Built) (o : Options) (names : VariableNames) :
    ((d.convert o names).bindings.toList.map Prod.fst).Sublist d.forest.ids ∧
      ∀ id, id ∈ (d.convert o names).bindings.toList.map Prod.fst ↔
        d.Admitted o.filters id ∧ d.Reached o.filters id := by
  have hbound : (d.convert o names).bindings.toList.map Prod.fst =
      ((d.trees.reached o.filters).filter fun a =>
        a.2.isElement && o.filters.isEligible a.2.tag?).map Prod.fst := by
    rw [hd.convert_eq, ← Forest.convert_bindings o none false d.trees names]
    simp [convertByTree, Bindings.toList]
  rw [hbound]
  constructor
  · refine List.Sublist.trans ?_ hd.trees_sublist
    exact (List.filter_sublist.trans (Forest.reached_sublist _ _)).map _
  · intro id
    have hreached := hd.mem_reached_trees o.filters id
    have hcontent : ∀ a ∈ d.trees.reached o.filters, d.content? a.1 = some a.2 :=
      fun a ha => hd.linked_trees.content?_eq ((Forest.reached_sublist _ _).subset ha)
    simp only [List.mem_map, List.mem_filter] at hreached ⊢
    constructor
    · rintro ⟨⟨i, content⟩, ⟨ha, helig⟩, rfl⟩
      refine ⟨?_, (hreached.mp ⟨_, ha, rfl⟩).2⟩
      cases content with
      | element tag attributes =>
        exact ⟨tag, attributes, hcontent _ ha, (o.filters.isEligible_iff tag).mp
          (by simpa [Content.isElement, Content.tag?] using helig)⟩
      | _ => simp [Content.isElement] at helig
    · rintro ⟨⟨tag, attributes, hc, hadmits⟩, hr⟩
      obtain ⟨⟨i, content⟩, ha, rfl⟩ := hreached.mpr ⟨hd.mem_trees hc (by simp), hr⟩
      obtain rfl : Content.element tag attributes = content :=
        Option.some.inj (hc.symm.trans (hcontent _ ha))
      exact ⟨_, ⟨ha, by simpa [Content.isElement, Content.tag?] using
        (o.filters.isEligible_iff tag).mpr hadmits⟩, rfl⟩

/-- The part of a visited node in a whole conversion. -/
theorem Built.visits_part (hd : d.Built) {o : Options} {names : VariableNames} {id : NodeId}
    {part : List Statement} (hpart : (id, part) ∈ d.visits o names) :
    ∃ content held? given, d.content? id = some content ∧ given.stem = names.stem ∧
      Forest.Handed d o.filters names.stem (d.ancestors id) held? ∧
      part = (Yield.ofNode o held? (d.inScript id) id content given).script := by
  rw [(hd.run_start o names).2, ← hd.scriptBelow_root] at hpart
  exact Forest.convert_part hd hd.linked_trees rfl (hd.handed_root _ _) hpart

theorem Built.flatMap_visits (hd : d.Built) (o : Options) (names : VariableNames) :
    (d.visits o names).flatMap Prod.snd = (d.convert o names).script := by
  rw [(hd.run_start o names).2, hd.convert_eq]
  rfl

end Document

/-- **Who is emitted.** A node is bound iff it is an admitted element and no ancestor is a text or
an ignored element, and the bindings are in document order. The script is made of the parts of the
visited nodes, one each. With more than blank space in it, and with ancestors of that kind, a text
is written as code right below a script element, and elsewhere created as a text node if an
ancestor is bound or the options keep it; both take the trimmed payload. -/
theorem convert_reach {d : Document} (hd : d.Built) (o : Options) (names : VariableNames) :
    let c := d.convert o names
    let bound := c.bindings.toList.map Prod.fst
    let visits := d.visits o names
    (∀ id, id ∈ bound ↔ d.Admitted o.filters id ∧ d.Reached o.filters id) ∧
      bound.Sublist d.forest.ids ∧ bound.Nodup ∧
      visits.flatMap Prod.snd = c.script ∧ (visits.map Prod.fst).Nodup ∧
      ∀ id payload, d.content? id = some (.text payload) →
        let trimmed := Text.trim payload.toList
        ((∃ part, (id, part) ∈ visits ∧ ∃ text var, .createText var text ∈ part) ↔
          trimmed ≠ [] ∧ ¬ d.BelowScript id ∧ d.Reached o.filters id ∧
            ((∃ a ∈ d.ancestors id, a ∈ bound) ∨ o.keepRootText = true)) ∧
        ((∃ part, (id, part) ∈ visits ∧ ∃ text, .code text ∈ part) ↔
          trimmed ≠ [] ∧ d.BelowScript id ∧ d.Reached o.filters id) ∧
        ∀ part text, (id, part) ∈ visits →
          (∃ var, .createText var text ∈ part) ∨ .code text ∈ part → text = .ofList trimmed := by
  intro c bound visits
  obtain ⟨hsub, hbound⟩ := hd.bound_ids o names
  obtain ⟨hvsub, hvisits⟩ := hd.visits_ids o names
  have hnodup : d.forest.ids.Nodup := hd.represents.nodup
  refine ⟨hbound, hsub, hsub.nodup hnodup, hd.flatMap_visits o names, hvsub.nodup hnodup, ?_⟩
  intro id payload hc trimmed
  -- what the part of this node is, given that it is visited
  have hpart : ∀ part, (id, part) ∈ visits → ∃ held? given,
      (held?.isSome ↔ ∃ a ∈ d.ancestors id, d.Admitted o.filters a) ∧
      part = (Yield.ofText o held? (d.inScript id) id payload given).script := by
    intro part hp
    obtain ⟨content, held?, given, hcontent, -, hheld, rfl⟩ := hd.visits_part hp
    obtain rfl : content = .text payload := Option.some.inj (hcontent.symm.trans hc)
    exact ⟨held?, given, hheld.isSome_iff, rfl⟩
  have hcreate : ∀ part, (id, part) ∈ visits → ((∃ text var, .createText var text ∈ part) ↔
      trimmed ≠ [] ∧ d.inScript id = false ∧
        ((∃ a ∈ d.ancestors id, d.Admitted o.filters a) ∨ o.keepRootText = true)) := by
    intro part hp
    obtain ⟨held?, given, hheld, rfl⟩ := hpart part hp
    simp only [Yield.createText_mem_ofText, hheld, ← and_assoc, exists_eq_right]
    rfl
  have hcode : ∀ part, (id, part) ∈ visits → ((∃ text, .code text ∈ part) ↔
      trimmed ≠ [] ∧ d.inScript id = true) := by
    intro part hp
    obtain ⟨held?, given, -, rfl⟩ := hpart part hp
    simp only [Yield.code_mem_ofText, ← and_assoc, exists_eq_right]
    rfl
  have hvisit : (∃ part, (id, part) ∈ visits) ↔ d.Reached o.filters id := by
    have h := hvisits id
    rw [and_iff_right (hd.mem_trees hc (by simp))] at h
    rw [← h]
    simp [visits]
  -- under a visited node the bound ancestors are the admitted ones
  have hheld : d.Reached o.filters id → ((∃ a ∈ d.ancestors id, a ∈ bound) ↔
      ∃ a ∈ d.ancestors id, d.Admitted o.filters a) := by
    intro hr
    refine exists_congr fun a => and_congr_right fun ha => ?_
    rw [hbound a]
    exact and_iff_left (hd.reached_of_mem_ancestors hr ha)
  refine ⟨⟨?_, ?_⟩, ⟨?_, ?_⟩, ?_⟩
  · rintro ⟨part, hp, hmem⟩
    have hr := hvisit.mp ⟨part, hp⟩
    obtain ⟨hne, hs, hk⟩ := (hcreate part hp).mp hmem
    exact ⟨hne, by simp [d.belowScript_iff, hs], hr, by rwa [hheld hr]⟩
  · rintro ⟨hne, hs, hr, hk⟩
    obtain ⟨part, hp⟩ := hvisit.mpr hr
    rw [hheld hr] at hk
    exact ⟨part, hp, (hcreate part hp).mpr ⟨hne, by simpa [d.belowScript_iff] using hs, hk⟩⟩
  · rintro ⟨part, hp, hmem⟩
    obtain ⟨hne, hs⟩ := (hcode part hp).mp hmem
    exact ⟨hne, (d.belowScript_iff id).mpr hs, hvisit.mp ⟨part, hp⟩⟩
  · rintro ⟨hne, hs, hr⟩
    obtain ⟨part, hp⟩ := hvisit.mpr hr
    exact ⟨part, hp, (hcode part hp).mpr ⟨hne, (d.belowScript_iff id).mp hs⟩⟩
  · intro part text hp hmem
    obtain ⟨held?, given, -, rfl⟩ := hpart part hp
    rcases hmem with hmem | hmem
    · exact (Yield.createText_mem_ofText.mp hmem).2.2.2
    · exact (Yield.code_mem_ofText.mp hmem).2.2

theorem convert_reach_specimen :
    Document.specimen.Built ∧
    let c := Document.specimen.convert .default (.new "_")
    (∀ id, id ∈ c.bindings.toList.map Prod.fst ↔
      Document.specimen.Admitted .default id ∧ Document.specimen.Reached .default id) :=
  ⟨Document.specimen_built, (convert_reach Document.specimen_built .default (.new "_")).1⟩

end DomScript
