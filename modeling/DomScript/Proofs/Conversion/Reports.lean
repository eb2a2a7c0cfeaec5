/-
DomScript.Proofs.Conversion.Reports — the reports, the bindings and the text tell the same story.

A conversion leaves four things: statements, bindings, reports and the names behind them. All come
from the same visits. An element that is created is bound and reported under its variable; a text is
reported when it would go to the default parent and may not; the last report counts nodes, bindings
and bytes.

* `Visit.yield_cases` — what one visit reports;
* `Session.exists_visited` — the visits of a conversion in a session;
* `Forest.convert_declared_length` — a name is taken for every binding and every created text;
* `convert_reports` — the reports of a whole conversion.
-/
import DomScript.Proofs.Conversion.Declared
import DomScript.Proofs.Conversion.Reach

namespace DomScript

/-! ## What a report is about -/

namespace Event

/-- The node that a report is about; the last one is about all of them. -/
def node? : Event → Option NodeId
  | .emitting node _ _ => some node
  | .dropping node => some node
  | .converted .. => none

/-- The binding that a report tells of. -/
def binding? : Event → Option (NodeId × String)
  | .emitting node _ var => some (node, var)
  | _ => none

end Event

/-! ## One visit -/

/-- The texts that are reported: there is more than blank space in them, they are no code, nothing
above them was created, and the options do not keep them. -/
def Yield.Drops (o : Options) (held? : Option String) (inScript : Bool) (payload : String) : Prop :=
  Text.trim payload.toList ≠ [] ∧ inScript = false ∧ held? = none ∧ o.keepRootText = false

theorem Yield.ofText_events (o : Options) (held? : Option String) (inScript : Bool) (id : NodeId)
    (names : VariableNames) (payload : String) :
    (Drops o held? inScript payload ∧
      (ofText o held? inScript id payload names).events = [.dropping id]) ∨
    (¬ Drops o held? inScript payload ∧
      (ofText o held? inScript id payload names).events = []) := by
  simp only [Drops, ofText]
  by_cases hblank : Text.trim payload.toList = []
  · right
    simp [hblank, single]
  · cases inScript with
    | true =>
      right
      simp [hblank, single]
    | false =>
      cases held? with
      | some var =>
        right
        simp [hblank, single]
      | none =>
        cases hkeep : o.keepRootText with
        | true =>
          right
          simp [hblank, single]
        | false =>
          left
          simp [hblank, single]

/-- **One visit** reports an element that it creates, a text that it drops, and nothing else. -/
theorem Visit.yield_cases (d : Document) (o : Options) (v : Visit) :
    let y := v.yield d o
    let Drops := Yield.Drops o v.held? (d.inScript v.id)
    (∃ tag attributes, v.content = .element tag attributes ∧
      y.bindings = [(v.id, v.given.advance.name)] ∧
      y.events = [.emitting v.id tag v.given.advance.name]) ∨
    (∃ payload, v.content = .text payload ∧ Drops payload ∧
      y.bindings = [] ∧ y.events = [.dropping v.id]) ∨
    ((∀ payload, v.content = .text payload → ¬ Drops payload) ∧
      y.bindings = [] ∧ y.events = []) := by
  obtain ⟨id, content, held?, given⟩ := v
  intro y Drops
  have hbindings : y.bindings = _ :=
    Yield.ofNode_bindings o held? (d.inScript id) id content given
  cases content with
  | text payload =>
    right
    rcases Yield.ofText_events o held? (d.inScript id) id given payload with
      ⟨hdrops, h⟩ | ⟨hkept, h⟩
    · exact .inl ⟨payload, rfl, hdrops, hbindings, h⟩
    · refine .inr ⟨?_, hbindings, h⟩
      rintro _ ⟨⟩
      exact hkept
  | element tag attributes =>
    simp only [Content.isElement, Content.tag?, Bool.true_and] at hbindings
    by_cases helig : o.filters.isEligible (some tag) = true
    · refine .inl ⟨tag, attributes, rfl, by rw [hbindings, if_pos helig], ?_⟩
      simp only [y, yield, Yield.ofNode, Yield.ofElement, helig, if_true]
      rfl
    · refine .inr (.inr ⟨by simp, by rw [hbindings, if_neg helig], ?_⟩)
      simp only [y, yield, Yield.ofNode, Yield.ofElement, helig]
      rfl
  | _ => exact .inr (.inr ⟨by simp, hbindings, rfl⟩)

/-! ## Reports of many visits -/

section Visits

variable (d : Document) (o : Options) (visits : List Visit)

/-- Every report is about a visited node, and no node is reported twice. -/
theorem Visit.exists_nodes :
    ∃ nodes : List NodeId,
      (visits.flatMap fun v => (v.yield d o).events).map Event.node? = nodes.map some ∧
      nodes.Sublist (visits.map Visit.id) := by
  induction visits with
  | nil => exact ⟨[], rfl, .slnil⟩
  | cons v visits ih =>
    obtain ⟨nodes, hnodes, hsub⟩ := ih
    rw [List.flatMap_cons, List.map_append, hnodes, List.map_cons]
    rcases v.yield_cases d o with
      ⟨tag, attributes, -, -, hevents⟩ | ⟨payload, -, -, -, hevents⟩ | ⟨-, -, hevents⟩
    · exact ⟨v.id :: nodes, by rw [hevents]; rfl, hsub.cons_cons _⟩
    · exact ⟨v.id :: nodes, by rw [hevents]; rfl, hsub.cons_cons _⟩
    · exact ⟨nodes, by rw [hevents]; rfl, hsub.cons _⟩

/-- The reports tell of the bindings, all of them and in order. -/
theorem Visit.filterMap_binding? :
    (visits.flatMap fun v => (v.yield d o).events).filterMap Event.binding? =
      visits.flatMap fun v => (v.yield d o).bindings := by
  induction visits with
  | nil => rfl
  | cons v visits ih =>
    rw [List.flatMap_cons, List.filterMap_append, ih, List.flatMap_cons]
    congr 1
    rcases v.yield_cases d o with
      ⟨tag, attributes, -, hbindings, hevents⟩ | ⟨payload, -, -, hbindings, hevents⟩ |
      ⟨-, hbindings, hevents⟩
    all_goals rw [hevents, hbindings]; rfl

end Visits

/-! ## Names -/

/-- Whether a statement creates a text node. -/
def Statement.createsText : Statement → Bool
  | .createText .. => true
  | _ => false

/-- Attributes create no text. -/
theorem countP_createsText_attributes (var : String) (attributes : List Attribute) :
    (attributes.flatMap (·.statements var)).countP Statement.createsText = 0 := by
  refine List.countP_eq_zero.mpr fun s hs => ?_
  have hnone : s.creates? = none :=
    List.filterMap_eq_nil_iff.mp (declaredVars_attributes var attributes) s hs
  cases s with
  | createText var text => cases hnone
  | _ => simp [Statement.createsText]

/-- One visit takes a name for the element that it binds or for the text that it creates. -/
theorem Yield.ofNode_declared_length (o : Options) (held? : Option String) (inScript : Bool)
    (id : NodeId) (content : Content) (names : VariableNames) :
    let y := ofNode o held? inScript id content names
    (declaredVars y.script).length =
      y.bindings.length + y.script.countP Statement.createsText := by
  cases content with
  | text payload =>
    rcases ofText_cases o held? inScript id payload names with
      ⟨events, h, -⟩ | ⟨-, -, h⟩ | ⟨-, -, -, h⟩ <;>
      simp only [ofNode, h, single_script] <;> rfl
  | element tag attributes =>
    simp only [ofNode, ofElement]
    split
    · simp only [single_script, declaredVars_element, List.countP_append, List.countP_cons,
        countP_createsText_attributes]
      rfl
    · rw [single_script]
      rfl
  | _ =>
    simp only [ofNode, single_script]
    rfl

/-- **A name for every binding and every created text**, and no other. -/
theorem Forest.convert_declared_length (o : Options) (parent? : Option String) (inScript : Bool)
    (f : Forest (NodeId × Content)) (names : VariableNames) :
    let y := f.convert o parent? inScript names
    (declaredVars y.script).length =
      y.bindings.length + y.script.countP Statement.createsText := by
  induction f generalizing parent? inScript names with
  | nil => rfl
  | node a kids sibs ihk ihs =>
    obtain ⟨id, content⟩ := a
    have hnode := Yield.ofNode_declared_length o parent? inScript id content names
    simp only [convert, Yield.andThen_script, Yield.andThen_bindings, declaredVars_append,
      List.length_append, List.countP_append, hnode, ihs]
    split
    · rw [ihk]
      omega
    · simp only [Yield.nothing_script, Yield.nothing_bindings, declaredVars_nil, List.length_nil,
        List.countP_nil]
      omega

/-! ## Whole documents -/

namespace Document

variable {d : Document}

/-- The names that a conversion takes. -/
theorem Built.convert_names (hd : d.Built) (o : Options) (names : VariableNames) :
    let c := d.convert o names
    c.names = names.skip (c.bindings.size + c.script.countP Statement.createsText) := by
  intro c
  obtain ⟨n, hn⟩ := d.convert_declared o names
  rw [VariableNames.take_eq, Prod.mk.injEq] at hn
  obtain ⟨hdeclared, hnames⟩ := hn
  have hlength : (declaredVars c.script).length = n := by
    rw [← hdeclared, List.length_map, List.length_range]
  have hcount : (declaredVars c.script).length =
      c.bindings.size + c.script.countP Statement.createsText := by
    have hc : c = d.convertByTree o names := hd.convert_eq o names
    rw [hc]
    simp only [convertByTree, Bindings.size, List.length_reverse]
    exact Forest.convert_declared_length ..
  rw [← hcount, hlength]
  exact hnames.symm

end Document

/-- The visits of a conversion in a session: the nodes that the walk comes to, in document order,
with what they hold; a variable is handed down to those below a created element. -/
structure Session.Visited (s : Session) (d : Document) (visits : List Visit) : Prop where
  inOrder : (visits.map Visit.id).Sublist d.forest.ids
  content : ∀ v ∈ visits, d.content? v.id = some v.content
  reached : ∀ v ∈ visits, d.Reached s.options.filters v.id
  complete : ∀ id content, d.content? id = some content → content ≠ .document →
    d.Reached s.options.filters id → ∃ v ∈ visits, v.id = id
  handed : ∀ v ∈ visits,
    Forest.Handed d s.options.filters s.names.stem (d.ancestors v.id) v.held?
  madeOf : (s.yield d).MadeOf d s.options visits

theorem Session.exists_visited {d : Document} (hd : d.Built) (s : Session) :
    ∃ visits, s.Visited d visits := by
  obtain ⟨visits, hreached, hheld, hmade⟩ :=
    Forest.exists_visits (o := s.options) hd hd.linked_trees rfl (hd.handed_root _ s.names.stem)
  rw [hd.scriptBelow_root] at hmade
  have hids : visits.map Visit.id = (d.trees.reached s.options.filters).map Prod.fst := by
    rw [← hreached, List.map_map]
    rfl
  have hmem : ∀ id, id ∈ visits.map Visit.id ↔
      id ∈ d.trees.ids ∧ d.Reached s.options.filters id := by
    intro id
    rw [hids]
    exact hd.mem_reached_trees _ id
  refine ⟨visits, ?_, ?_, ?_, ?_, fun v hv => (hheld v hv).2, hmade⟩
  · rw [hids]
    exact ((Forest.reached_sublist _ _).map _).trans hd.trees_sublist
  · intro v hv
    have hv : (v.id, v.content) ∈ d.trees.reached s.options.filters := by
      rw [← hreached]
      exact List.mem_map_of_mem (f := fun v : Visit => (v.id, v.content)) hv
    exact hd.linked_trees.content?_eq ((Forest.reached_sublist _ _).subset hv)
  · intro v hv
    exact ((hmem v.id).mp (List.mem_map_of_mem hv)).2
  · intro id content hcontent hne hr
    exact List.mem_map.mp ((hmem id).mpr ⟨hd.mem_trees hcontent hne, hr⟩)

namespace Session.Visited

variable {d : Document} {s : Session} {visits : List Visit} (h : s.Visited d visits)

include h

/-- A report of an element has its tag. -/
theorem content?_of_emitting {id : NodeId} {tag : Tag} {var : String}
    (hmem : .emitting id tag var ∈ (s.yield d).events) :
    ∃ attributes, d.content? id = some (.element tag attributes) := by
  rw [h.madeOf.events, List.mem_flatMap] at hmem
  obtain ⟨v, hv, hmem⟩ := hmem
  rcases v.yield_cases d s.options with
    ⟨tag', attributes, hcontent, -, hevents⟩ | ⟨payload, -, -, -, hevents⟩ | ⟨-, -, hevents⟩
  · rw [hevents, List.mem_singleton] at hmem
    cases hmem
    exact ⟨attributes, by rw [h.content v hv, hcontent]⟩
  · simp [hevents] at hmem
  · simp [hevents] at hmem

/-- **Which texts are reported as dropped.** -/
theorem dropping_mem_iff {id : NodeId} :
    .dropping id ∈ (s.yield d).events ↔
      (∃ payload, d.content? id = some (.text payload) ∧ Text.trim payload.toList ≠ []) ∧
        d.Reached s.options.filters id ∧ ¬ d.BelowScript id ∧
        (∀ a ∈ d.ancestors id, ¬ d.Admitted s.options.filters a) ∧
        s.options.keepRootText = false := by
  have hheld : ∀ v ∈ visits, (v.held? = none ↔
      ∀ a ∈ d.ancestors v.id, ¬ d.Admitted s.options.filters a) := by
    intro v hv
    have hsome := (h.handed v hv).isSome_iff
    rw [← Option.not_isSome_iff_eq_none, hsome]
    simp only [not_exists, not_and]
  rw [h.madeOf.events, List.mem_flatMap, d.belowScript_iff id, Bool.not_eq_true]
  constructor
  · rintro ⟨v, hv, hmem⟩
    rcases v.yield_cases d s.options with
      ⟨tag, attributes, -, -, hevents⟩ | ⟨payload, hcontent, hdrops, -, hevents⟩ |
      ⟨-, -, hevents⟩
    · simp [hevents] at hmem
    · rw [hevents, List.mem_singleton] at hmem
      cases hmem
      obtain ⟨hne, hscript, hnone, hkeep⟩ := hdrops
      exact ⟨⟨payload, by rw [h.content v hv, hcontent], hne⟩, h.reached v hv, hscript,
        (hheld v hv).mp hnone, hkeep⟩
    · simp [hevents] at hmem
  · rintro ⟨⟨payload, hcontent, hne⟩, hr, hscript, habove, hkeep⟩
    obtain ⟨v, hv, rfl⟩ := h.complete id _ hcontent (by simp) hr
    have hv' : v.content = .text payload := Option.some.inj ((h.content v hv).symm.trans hcontent)
    have hdrops : Yield.Drops s.options v.held? (d.inScript v.id) payload :=
      ⟨hne, hscript, (hheld v hv).mpr habove, hkeep⟩
    refine ⟨v, hv, ?_⟩
    rcases v.yield_cases d s.options with
      ⟨tag, attributes, helement, -, -⟩ | ⟨payload, -, -, -, hevents⟩ | ⟨hkept, -, -⟩
    · rw [hv'] at helement
      cases helement
    · rw [hevents]
      exact List.mem_singleton_self _
    · exact absurd hdrops (hkept payload hv')

end Session.Visited

/-- **The reports, the bindings and the text tell the same story.** The reports of a conversion are
about different nodes, in document order, and behind them stands one about the whole document. They
tell of the bindings, all of them and in order, each with the tag of its element. A text is reported
as dropped iff there is more than blank space in it, the walk comes to it, its parent is no script
element, no ancestor is bound and the options do not keep it. The last report gives the size of the
document, the number of bindings and the number of bytes that the buffer grows by. And a name is
taken for every binding and every created text. -/
theorem convert_reports {d : Document} (hd : d.Built) (s : Session) :
    let c := (s.convert d).1
    let after := (s.convert d).2
    let bound := c.bindings.toList.map Prod.fst
    (∃ (reports : List Event) (nodes : List NodeId),
      c.events = reports ++ [.converted d.size c.bindings.size c.text.utf8ByteSize] ∧
      reports.map Event.node? = nodes.map some ∧ nodes.Sublist d.forest.ids ∧ nodes.Nodup ∧
      reports.filterMap Event.binding? = c.bindings.toList ∧
      (∀ id tag var, .emitting id tag var ∈ reports →
        ∃ attributes, d.content? id = some (.element tag attributes)) ∧
      ∀ id, .dropping id ∈ reports ↔
        (∃ payload, d.content? id = some (.text payload) ∧ Text.trim payload.toList ≠ []) ∧
          d.Reached s.options.filters id ∧ ¬ d.BelowScript id ∧
          (∀ a ∈ d.ancestors id, a ∉ bound) ∧ s.options.keepRootText = false) ∧
      after.output.text = s.output.text ++ c.text ∧
      after.output.size = s.output.size + c.text.utf8ByteSize ∧
      after.names = s.names.skip (c.bindings.size + c.script.countP Statement.createsText) := by
  intro c after bound
  obtain ⟨visits, hvisited⟩ := s.exists_visited hd
  obtain ⟨nodes, hnodes, hsub⟩ := Visit.exists_nodes d s.options visits
  have hmade := hvisited.madeOf
  have hinOrder : nodes.Sublist d.forest.ids := hsub.trans hvisited.inOrder
  have hbindings : c.bindings.toList = (s.yield d).bindings := s.convert_bindings hd
  have hsize : c.bindings.size = (s.yield d).bindings.length := by
    rw [← hbindings, Bindings.size, Bindings.toList, List.length_reverse]
  have hscript : c.script = (s.yield d).script := s.convert_script hd
  -- above a node that the walk comes to, the bound elements are the admitted ones
  have hbound : ∀ id, d.Reached s.options.filters id →
      ((∀ a ∈ d.ancestors id, a ∉ bound) ↔
        ∀ a ∈ d.ancestors id, ¬ d.Admitted s.options.filters a) := by
    intro id hr
    refine forall₂_congr fun a ha => not_congr ?_
    refine ((hd.bound_ids s.options s.names).2 a).trans (and_iff_left ?_)
    exact hd.reached_of_mem_ancestors hr ha
  refine ⟨⟨(s.yield d).events, nodes, ?_, ?_, hinOrder, hinOrder.nodup hd.represents.nodup, ?_, ?_,
    ?_⟩, ?_, ?_, ?_⟩
  · rw [s.convert_events hd, hsize, Conversion.text, hscript]
  · rw [hmade.events, hnodes]
  · rw [hmade.events, Visit.filterMap_binding?, ← hmade.bindings, hbindings]
  · exact fun id tag var hmem => hvisited.content?_of_emitting hmem
  · intro id
    rw [hvisited.dropping_mem_iff]
    refine and_congr_right fun _ => and_congr_right fun hr => ?_
    rw [hbound id hr]
  · rfl
  · exact String.utf8ByteSize_append
  · exact hd.convert_names s.options s.names

/-- An element, a text below it, a text that is dropped, and one more element. -/
theorem convert_reports_specimen :
    let s := Session.new .default
    let d := Document.empty.appendAll
      [(0, .element ⟨"p"⟩ []), (1, .text "x"), (0, .text "y"), (0, .element ⟨"q"⟩ [])]
    d.Built ∧
      (s.convert d).1.events =
        [.emitting 1 ⟨"p"⟩ "_a", .dropping 3, .emitting 4 ⟨"q"⟩ "_c", .converted 5 2 197] ∧
      (s.convert d).2.names = s.names.skip 3 := by
  intro s d
  have hd : d.Built := Document.Built.empty.appendAll (by decide)
  refine ⟨hd, by decide +kernel, ?_⟩
  rw [(convert_reports hd s).2.2.2]
  decide +kernel

end DomScript
