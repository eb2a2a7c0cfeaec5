/-
DomScript.Proofs.Conversion.RootText — keeping root text adds that text and changes nothing else.

Two conversions of one document, one that drops the texts without a created ancestor and one that
keeps them, get out of step in the names at every such text. So the variables of the one are those
of the other under a renaming, which is fixed before the walk: the kept variables, in order, become
the next names of the sequence. The default parent is no variable and is not renamed, also where it
reads like one.

* `Yield.Follows` — what one part of the walk gives in the two conversions; `Follows.andThen`;
* `Yield.ofNode_follows` — one visit;
* `Forest.convert_follows` — the recursion;
* `convert_keepRootText` — two conversions in one session.
-/
import Mathlib.Data.List.Flatten
import DomScript.Proofs.Conversion.Decode
import DomScript.Proofs.Conversion.Reports
import DomScript.Proofs.WordOrder

namespace DomScript

/-! ## Other variables -/

/-- A statement with `ρ` put on the variables that it creates, sets or appends, and `π` on what it
appends to. -/
def Statement.rename (ρ π : String → String) : Statement → Statement
  | .createElement var tag => .createElement (ρ var) tag
  | .createText var text => .createText (ρ var) text
  | .assign var path value => .assign (ρ var) path value
  | .listen var event handler => .listen (ρ var) event handler
  | .appendChild parent child => .appendChild (π parent) (ρ child)
  | .code text => .code text

/-- The text of a statement that is code. -/
def Statement.code? : Statement → Option String
  | .code text => some text
  | _ => none

/-- The statements of a visited node with other variables. What has no bound ancestor is appended to
the default parent, which is no variable. -/
def Document.renamed (d : Document) (bound : List NodeId) (ρ : String → String)
    (v : NodeId × List Statement) : List Statement :=
  v.2.map (.rename ρ (if ∃ a ∈ d.ancestors v.1, a ∈ bound then ρ else id))

section Rename

variable (ρ π : String → String) (script : List Statement)

theorem declaredVars_rename :
    declaredVars (script.map (.rename ρ π)) = (declaredVars script).map ρ := by
  rw [declaredVars, declaredVars, List.filterMap_map, List.map_filterMap]
  refine List.filterMap_congr fun s _ => ?_
  cases s <;> rfl

theorem filterMap_code?_rename :
    (script.map (.rename ρ π)).filterMap Statement.code? = script.filterMap Statement.code? := by
  rw [List.filterMap_map]
  refine List.filterMap_congr fun s _ => ?_
  cases s <;> rfl

theorem attributes_rename (var : String) (attributes : List Attribute) :
    (attributes.flatMap (·.statements var)).map (.rename ρ π) =
      attributes.flatMap (·.statements (ρ var)) := by
  rw [Attribute.flatMap_statements, Attribute.flatMap_statements, List.map_map]
  refine List.map_congr_left fun setting _ => ?_
  cases setting <;> rfl

end Rename

/-! ## What the two conversions give -/

/-- The options with root text kept or dropped. -/
def Options.keeping (o : Options) (keepRootText : Bool) : Options :=
  { o with keepRootText }

@[simp] theorem Options.keeping_filters (o : Options) (keepRootText : Bool) :
    (o.keeping keepRootText).filters = o.filters := rfl

/-- The variables declared for the nodes that are not reported as dropped. -/
def keptVars (reports : List Event) (parts : List (NodeId × List Statement)) : List String :=
  declaredVars ((parts.filter fun v => .dropping v.1 ∉ reports).flatMap Prod.snd)

theorem keptVars_append (reports : List Event) (parts more : List (NodeId × List Statement)) :
    keptVars reports (parts ++ more) = keptVars reports parts ++ keptVars reports more := by
  rw [keptVars, List.filter_append, List.flatMap_append, declaredVars_append]
  rfl

namespace Yield

section Follows

variable (d : Document) (bound : List NodeId) (reports : List Event) (ρ : String → String)

/-- The renaming takes the variables that `z` declares for the nodes kept to the next names. -/
def Renames (names : VariableNames) (z : Yield) : Prop :=
  (keptVars reports z.parts).map ρ = (names.take (keptVars reports z.parts).length).1

/-- The yield `y`, from `names` on, is `z` under the renaming and without the nodes dropped. -/
structure Follows (names : VariableNames) (y z : Yield) : Prop where
  parts : y.parts = z.parts.map fun v =>
    (v.1, if .dropping v.1 ∈ reports then [] else d.renamed bound ρ v)
  bindings : y.bindings = z.bindings.map (Prod.map id ρ)
  names : y.names = names.skip (keptVars reports z.parts).length

variable {d bound reports ρ} {names : VariableNames} {y z : Yield}
  {next next' : VariableNames → Yield}

theorem renames_andThen :
    Renames reports ρ names (z.andThen next') ↔ Renames reports ρ names z ∧
      Renames reports ρ (names.skip (keptVars reports z.parts).length) (next' z.names) := by
  rw [Renames, andThen_parts, keptVars_append, List.map_append, List.length_append,
    (VariableNames.take_add ..).1, Renames, Renames]
  have hlength : ((keptVars reports z.parts).map ρ).length =
      (names.take (keptVars reports z.parts).length).1.length := by
    rw [List.length_map, VariableNames.length_take]
  exact ⟨fun h => List.append_inj h hlength, fun ⟨hz, hnext⟩ => by rw [hz, hnext]⟩

theorem Follows.andThen (h : y.Follows d bound reports ρ names z)
    (hnext : (next y.names).Follows d bound reports ρ y.names (next' z.names)) :
    (y.andThen next).Follows d bound reports ρ names (z.andThen next') := by
  constructor
  · rw [andThen_parts, andThen_parts, h.parts, hnext.parts, List.map_append]
  · rw [andThen_bindings, andThen_bindings, h.bindings, hnext.bindings, List.map_append]
  · rw [andThen_names, hnext.names, h.names, andThen_parts, keptVars_append, List.length_append,
      (VariableNames.take_add ..).2]

theorem follows_nothing (names given : VariableNames) :
    (nothing names).Follows d bound reports ρ names (nothing given) :=
  ⟨rfl, rfl, rfl⟩

theorem Follows.firstVar? (h : y.Follows d bound reports ρ names z) :
    y.firstVar? = z.firstVar?.map ρ := by
  rw [Yield.firstVar?, Yield.firstVar?, h.bindings, List.head?_map, Option.map_map, Option.map_map]
  rfl

/-! ### One visit -/

variable {node : NodeId} {script : List Statement} {bindings : List (NodeId × String)}
  {events events' : List Event} {given after : VariableNames}

theorem keptVars_single :
    keptVars reports (single node script bindings events names).parts =
      if .dropping node ∈ reports then [] else declaredVars script := by
  by_cases h : .dropping node ∈ reports <;> simp [keptVars, single, h]

/-- A node that is dropped. -/
theorem follows_dropped (h : .dropping node ∈ reports) :
    (single node [] [] events names).Follows d bound reports ρ names
      (single node script [] events' after) := by
  refine ⟨?_, rfl, ?_⟩
  · simp [single, h]
  · rw [keptVars_single, if_pos h]
    rfl

/-- A node that is not dropped. -/
theorem follows_kept {script' : List Statement} {bindings' : List (NodeId × String)}
    {after' : VariableNames} (h : .dropping node ∉ reports)
    (hscript : script' = d.renamed bound ρ (node, script))
    (hbindings : bindings' = bindings.map (Prod.map id ρ))
    (hnames : after' = names.skip (declaredVars script).length) :
    (single node script' bindings' events after').Follows d bound reports ρ names
      (single node script bindings events' after) := by
  refine ⟨?_, hbindings, ?_⟩
  · simp [single, h, hscript]
  · rw [keptVars_single, if_neg h]
    exact hnames

/-- The one variable that a node declares becomes the next name. -/
theorem Renames.advance {var : String}
    (hρ : Renames reports ρ names (single node script bindings events after))
    (h : .dropping node ∉ reports) (hdeclared : declaredVars script = [var]) :
    names.advance.name = ρ var := by
  rw [Renames, keptVars_single, if_neg h, hdeclared] at hρ
  exact (List.singleton_inj.mp hρ).symm

variable {o : Options} {held? : Option String}
  (hheld : (∃ a ∈ d.ancestors node, a ∈ bound) ↔ held?.isSome)

include hheld

/-- What a node is appended to is renamed if it is a variable. -/
theorem renamed_append (rest : List Statement) (var : String) :
    d.renamed bound ρ (node, rest ++ [.appendChild (held?.getD o.defaultParent) var]) =
      d.renamed bound ρ (node, rest) ++
        [.appendChild ((held?.map ρ).getD o.defaultParent) (ρ var)] := by
  rw [Document.renamed, List.map_append]
  refine congrArg (_ ++ [Statement.appendChild · (ρ var)]) ?_
  cases held? with
  | none => rw [if_neg (by simp [hheld])]; rfl
  | some parent => rw [if_pos (by simp [hheld])]; rfl

/-- **A text** that is not dropped gives the same under the renaming. -/
theorem ofText_follows {payload : String} {inScript : Bool}
    (hdropping : .dropping node ∈ reports ↔
      Text.trim payload.toList ≠ [] ∧ inScript = false ∧ held? = none)
    (hρ : Renames reports ρ names (ofText (o.keeping true) held? inScript node payload given)) :
    (ofText (o.keeping false) (held?.map ρ) inScript node payload names).Follows d bound reports ρ
      names (ofText (o.keeping true) held? inScript node payload given) := by
  rcases ofText_cases (o.keeping true) held? inScript node payload given with
    ⟨events, hz, hblank | ⟨-, -, hkeep⟩⟩ | ⟨hne, hscript, hz⟩ | ⟨hne, hscript, -, hz⟩
  · have hkept : .dropping node ∉ reports := by simp [hdropping, hblank]
    have hy : ofText (o.keeping false) (held?.map ρ) inScript node payload names =
        single node [] [] [] names := by
      simp [ofText, hblank]
    rw [hy, hz]
    exact follows_kept hkept rfl rfl rfl
  · cases hkeep
  · have hkept : .dropping node ∉ reports := by simp [hdropping, hscript]
    have hy : ofText (o.keeping false) (held?.map ρ) inScript node payload names =
        single node [.code (.ofList (Text.trim payload.toList))] [] [] names := by
      simp [ofText, hne, hscript]
    rw [hy, hz]
    exact follows_kept hkept rfl rfl rfl
  · cases hheld? : held? with
    | none =>
      have hdropped : .dropping node ∈ reports := hdropping.mpr ⟨hne, hscript, hheld?⟩
      have hy : ofText (o.keeping false) none inScript node payload names =
          single node [] [] [.dropping node] names := by
        simp [ofText, hne, hscript, Options.keeping]
      rw [Option.map_none, hy, ← hheld?, hz]
      exact follows_dropped hdropped
    | some parent =>
      have hkept : .dropping node ∉ reports := by simp [hdropping, hheld?]
      have hy : ofText (o.keeping false) (some (ρ parent)) inScript node payload names =
          single node [.createText names.advance.name (.ofList (Text.trim payload.toList)),
            .appendChild (ρ parent) names.advance.name] [] [] names.advance := by
        simp [ofText, hne, hscript]
      rw [hz] at hρ
      rw [Option.map_some, hy, ← hheld?, hz]
      refine follows_kept hkept ?_ rfl rfl
      rw [hρ.advance hkept rfl]
      refine .symm ((renamed_append hheld [_] _).trans ?_)
      rw [hheld?]
      rfl

/-- **An element** gives the same under the renaming. -/
theorem ofElement_follows {tag : Tag} {attributes : List Attribute}
    (hkept : .dropping node ∉ reports)
    (hρ : Renames reports ρ names
      (ofElement (o.keeping true) held? node tag attributes given)) :
    (ofElement (o.keeping false) (held?.map ρ) node tag attributes names).Follows d bound reports ρ
      names (ofElement (o.keeping true) held? node tag attributes given) := by
  -- elements do not ask whether root text is kept
  have hany : ∀ keep, ofElement (o.keeping keep) = ofElement o := fun _ => rfl
  rw [hany] at hρ
  rw [hany, hany]
  simp only [ofElement, VariableNames.generate_fst, VariableNames.generate_snd] at hρ ⊢
  by_cases helig : o.filters.isEligible (some tag) = true
  · rw [if_pos helig] at hρ ⊢
    rw [if_pos helig]
    have hvar : names.advance.name = ρ given.advance.name :=
      hρ.advance hkept (declaredVars_element ..)
    refine follows_kept hkept ?_ ?_ ?_
    · refine .symm ((renamed_append hheld (o := o) _ _).trans ?_)
      rw [hvar, Document.renamed, List.map_cons, attributes_rename]
      rfl
    · rw [hvar]
      rfl
    · rw [declaredVars_element]
      rfl
  · rw [if_neg helig, if_neg helig]
    exact follows_kept hkept rfl rfl rfl

/-- **One visit.** A text that is dropped gives nothing where it would be appended to the default
parent, and every other node gives the same under the renaming. -/
theorem ofNode_follows {inScript : Bool} {content : Content}
    (hdropping : .dropping node ∈ reports ↔
      (∃ payload, content = .text payload ∧ Text.trim payload.toList ≠ []) ∧
        inScript = false ∧ held? = none)
    (hρ : Renames reports ρ names
      (ofNode (o.keeping true) held? inScript node content given)) :
    (ofNode (o.keeping false) (held?.map ρ) inScript node content names).Follows d bound reports ρ
      names (ofNode (o.keeping true) held? inScript node content given) := by
  cases content with
  | text payload => exact ofText_follows hheld (by simpa using hdropping) hρ
  | element tag attributes => exact ofElement_follows hheld (by simp [hdropping]) hρ
  | _ => exact follows_kept (by simp [hdropping]) rfl rfl rfl

end Follows

end Yield

/-! ## The recursion -/

/-- The bindings and the reports tell of a node what the filters say: whether something above it is
created, and whether it is a text that is dropped. -/
structure Document.Told (d : Document) (filters : Filters) (bound : List NodeId)
    (reports : List Event) (id : NodeId) : Prop where
  bound_iff : (∃ a ∈ d.ancestors id, a ∈ bound) ↔ ∃ a ∈ d.ancestors id, d.Admitted filters a
  dropping_iff : .dropping id ∈ reports ↔
    (∃ payload, d.content? id = some (.text payload) ∧ Text.trim payload.toList ≠ []) ∧
      d.inScript id = false ∧ ¬ ∃ a ∈ d.ancestors id, d.Admitted filters a

/-- **The recursion.** If the renaming takes the variables for the nodes kept to the next names, the
conversion that drops is the one that keeps, under the renaming and without the nodes dropped. -/
theorem Forest.convert_follows {d : Document} (hd : d.Built) {bound : List NodeId}
    {reports : List Event} {ρ : String → String} {o : Options} {held? : Option String}
    {f : Forest (NodeId × Content)} {names given : VariableNames} {above : Option NodeId}
    {stem : String} (h : d.Linked above f) (hstem : given.stem = stem)
    (hh : Handed d o.filters stem (d.upFrom above) held?)
    (htold : ∀ a ∈ f.reached o.filters, d.Told o.filters bound reports a.1)
    (hρ : Yield.Renames reports ρ names
      (f.convert (o.keeping true) held? (d.scriptBelow above) given)) :
    (f.convert (o.keeping false) (held?.map ρ) (d.scriptBelow above) names).Follows d bound reports
      ρ names (f.convert (o.keeping true) held? (d.scriptBelow above) given) := by
  induction f generalizing above held? names given with
  | nil => exact Yield.follows_nothing names given
  | node a kids sibs ihk ihs =>
    obtain ⟨id, content⟩ := a
    obtain ⟨hn, hk, hs⟩ := h
    have hcontent : d.content? id = some content := Document.content?_of_node? hn
    have hanc : d.ancestors id = d.upFrom above := hd.ancestors_eq hn
    have hscript : d.inScript id = d.scriptBelow above := d.inScript_eq hn
    simp only [reached, List.mem_cons, List.mem_append] at htold
    -- the renaming is as required for each piece of the forest
    rw [convert_node] at hρ
    obtain ⟨htreeρ, hbehind⟩ := Yield.renames_andThen.mp hρ
    have htreeρ' := htreeρ
    rw [convert_node_nil] at htreeρ'
    obtain ⟨hnodeρ, hkids⟩ := Yield.renames_andThen.mp htreeρ'
    have hnode : Yield.Follows d bound reports ρ names
        (.ofNode (o.keeping false) (held?.map ρ) (d.scriptBelow above) id content names)
        (.ofNode (o.keeping true) held? (d.scriptBelow above) id content given) := by
      obtain ⟨hbound, hdropping⟩ := htold (id, content) (.inl rfl)
      refine Yield.ofNode_follows ?_ ?_ hnodeρ
      · rw [hbound, hanc, hh.isSome_iff]
      · rw [hdropping, hcontent, hscript, hanc, ← hh.isSome_iff, Option.not_isSome_iff_eq_none]
        simp only [Option.some.injEq]
    have htree : Yield.Follows d bound reports ρ names
        (convert (o.keeping false) (held?.map ρ) (d.scriptBelow above)
          (.node (id, content) kids .nil) names)
        (convert (o.keeping true) held? (d.scriptBelow above)
          (.node (id, content) kids .nil) given) := by
      rw [convert_node_nil, convert_node_nil]
      refine hnode.andThen ?_
      rw [hnode.names, hnode.firstVar?, ← Option.map_or, ← Document.scriptBelow_some hcontent]
      rw [← Document.scriptBelow_some hcontent] at hkids
      by_cases hdesc : o.filters.descends content
      · rw [if_pos (c := (o.keeping true).filters.descends content) hdesc] at hkids ⊢
        rw [if_pos (c := (o.keeping false).filters.descends content) hdesc]
        subst hstem
        refine ihk hk (Yield.ofNode_stem ..) ?_ (fun a ha => ?_) hkids
        · exact hh.children (o := o.keeping true) hd hn rfl rfl
        · exact htold a (.inr (.inl (by rwa [if_pos hdesc])))
      · rw [if_neg (c := (o.keeping true).filters.descends content) hdesc,
          if_neg (c := (o.keeping false).filters.descends content) hdesc]
        exact Yield.follows_nothing _ _
    rw [convert_node (o.keeping false), convert_node (o.keeping true)]
    refine htree.andThen ?_
    rw [htree.names]
    refine ihs hs ?_ hh (fun a ha => htold a (.inr (.inr ha))) hbehind
    exact (convert_stem ..).trans hstem

/-! ## Lists -/

section Lists

variable {α β : Type}

/-- A list without repetitions can be taken to any list of its length. -/
theorem exists_map_eq [DecidableEq α] [Inhabited β] {l : List α} (hl : l.Nodup) {m : List β}
    (hlength : m.length = l.length) : ∃ f : α → β, l.map f = m := by
  refine ⟨fun x => m[l.idxOf x]!, List.ext_getElem (by simp [hlength]) ?_⟩
  intro i hi hm
  rw [List.length_map] at hi
  rw [List.getElem_map, hl.idxOf_getElem i hi, getElem!_pos m i hm]

/-- What takes an ascending list to an ascending list keeps the order. -/
theorem rel_of_pairwise_map {R : α → α → Prop} [Std.Asymm R] {f : α → α} {l : List α}
    (h : l.Pairwise R) (hmap : (l.map f).Pairwise R) :
    ∀ x ∈ l, ∀ y ∈ l, R x y → R (f x) (f y) := by
  refine List.Pairwise.forall_of_forall_of_flip (R := fun x y => R x y → R (f x) (f y)) ?_ ?_ ?_
  · exact fun x _ hx => absurd hx (Std.Asymm.asymm _ _ hx)
  · exact (List.pairwise_map.mp hmap).imp fun {a b} hf (_ : R a b) => hf
  · exact h.imp fun hxy hyx => absurd hxy (Std.Asymm.asymm _ _ hyx)

/-- What is left out gives nothing. -/
theorem flatMap_filter_not (p : α → Prop) [DecidablePred p] (f : α → List β) (l : List α) :
    (l.filter fun a => ¬ p a).flatMap f = l.flatMap fun a => if p a then [] else f a := by
  induction l with
  | nil => rfl
  | cons a l ih =>
    rw [List.flatMap_cons, ← ih, List.filter_cons]
    by_cases h : p a <;> simp [h]

end Lists

/-! ## Two conversions in one session -/

/-- The variables of a conversion stand in the order of the names. -/
theorem Document.pairwise_declaredVars (d : Document) (o : Options) (names : VariableNames) :
    (declaredVars (d.convert o names).script).Pairwise VariableNames.Before := by
  obtain ⟨n, hn⟩ := d.convert_declared o names
  have hpairwise := names.pairwise_take n
  rwa [hn] at hpairwise

/-- The variables declared for the nodes kept are among all that are declared, in this order. -/
theorem keptVars_sublist (reports : List Event) (y : Yield) :
    (keptVars reports y.parts).Sublist (declaredVars y.script) :=
  (List.filter_sublist.flatMap _).filterMap _

/-- The statements of the nodes kept declare the variables kept, under the renaming. -/
theorem declaredVars_renamed (d : Document) (bound : List NodeId) (ρ : String → String)
    (parts : List (NodeId × List Statement)) :
    declaredVars (parts.flatMap (d.renamed bound ρ)) =
      (declaredVars (parts.flatMap Prod.snd)).map ρ := by
  rw [declaredVars, declaredVars, List.filterMap_flatMap, List.filterMap_flatMap, List.map_flatMap]
  exact List.flatMap_congr fun v _ => declaredVars_rename ..

namespace Session

variable {d : Document} (s : Session)

/-- The reports on single nodes stand before the last one. -/
theorem dropping_mem_convert (hd : d.Built) (id : NodeId) :
    .dropping id ∈ (s.convert d).1.events ↔ .dropping id ∈ (s.yield d).events := by
  rw [s.convert_events hd, List.mem_append, List.mem_singleton]
  simp

/-- **What is told of the nodes that the walk comes to** by the bindings and the reports of a
conversion that drops root text. -/
theorem told (hd : d.Built) (hdrop : s.options.keepRootText = false) {id : NodeId}
    (hr : d.Reached s.options.filters id) :
    let c := (s.convert d).1
    d.Told s.options.filters (c.bindings.toList.map Prod.fst) c.events id := by
  intro c
  obtain ⟨visits, hvisited⟩ := s.exists_visited hd
  refine ⟨?_, ?_⟩
  · refine exists_congr fun a => and_congr_right fun ha => ?_
    refine ((hd.bound_ids s.options s.names).2 a).trans (and_iff_left ?_)
    exact hd.reached_of_mem_ancestors hr ha
  · rw [s.dropping_mem_convert hd, hvisited.dropping_mem_iff, d.belowScript_iff]
    simp only [hr, hdrop, true_and, and_true, Bool.not_eq_true, not_exists, not_and]

/-- **The two conversions follow each other** under some renaming. -/
theorem exists_follows (hd : d.Built) :
    let first := s.setKeepRootText false
    let second := s.setKeepRootText true
    let c := (first.convert d).1
    ∃ ρ, (first.yield d).Follows d (c.bindings.toList.map Prod.fst) c.events ρ s.names
      (second.yield d) := by
  intro first second c
  let kept := keptVars c.events (second.yield d).parts
  have hsublist : kept.Sublist (declaredVars (second.convert d).1.script) := by
    rw [second.convert_script hd]
    exact keptVars_sublist c.events (second.yield d)
  have hnodup : kept.Nodup := by
    refine ((d.pairwise_declaredVars _ _).sublist hsublist).imp ?_
    rintro x _ hlt rfl
    exact Std.Asymm.asymm _ _ hlt hlt
  obtain ⟨ρ, hρ⟩ := exists_map_eq hnodup (VariableNames.length_take kept.length s.names)
  have htold : ∀ a ∈ d.trees.reached s.options.filters,
      d.Told s.options.filters (c.bindings.toList.map Prod.fst) c.events a.1 := fun a ha =>
    first.told hd rfl ((hd.mem_reached_trees _ _).mp (List.mem_map_of_mem ha)).2
  have hfollows : (d.trees.convert (s.options.keeping false) (Option.map ρ none)
      (d.scriptBelow (some Document.root)) s.names).Follows d (c.bindings.toList.map Prod.fst)
        c.events ρ s.names (d.trees.convert (s.options.keeping true) none
          (d.scriptBelow (some Document.root)) s.names) := by
    refine Forest.convert_follows hd hd.linked_trees rfl (hd.handed_root _ _) htold ?_
    rw [hd.scriptBelow_root]
    exact hρ
  rw [hd.scriptBelow_root] at hfollows
  exact ⟨ρ, hfollows⟩

end Session

section Visited

variable {d : Document} (hd : d.Built) (s : Session) {id : NodeId} {part : List Statement}
  (hpart : (id, part) ∈ d.visits (s.options.keeping true) s.names)

include hd hpart

/-- **Which nodes are dropped**, among those that the other conversion visits. -/
theorem Document.Built.dropping_mem_iff :
    .dropping id ∈ ((s.setKeepRootText false).convert d).1.events ↔
      (∃ var text, .createText var text ∈ part) ∧
        ∀ a ∈ d.ancestors id, ¬ d.Admitted s.options.filters a := by
  have hr : d.Reached (s.options.keeping true).filters id := hd.reached_of_visited hpart
  obtain ⟨content, held?, given, hcontent, -, -, rfl⟩ := hd.visits_part hpart
  rw [((s.setKeepRootText false).told hd rfl hr).dropping_iff, not_exists]
  constructor
  · rintro ⟨⟨payload, hc, hne⟩, hscript, hnone⟩
    obtain rfl : content = .text payload := Option.some.inj (hcontent.symm.trans hc)
    have hcreate : ∃ var, .createText var (.ofList (Text.trim payload.toList)) ∈
        (Yield.ofText (s.options.keeping true) held? (d.inScript id) id payload given).script :=
      Yield.createText_mem_ofText.mpr ⟨hne, hscript, .inr rfl, rfl⟩
    obtain ⟨var, hmem⟩ := hcreate
    exact ⟨⟨var, _, hmem⟩, fun a ha hadm => hnone a ⟨ha, hadm⟩⟩
  · rintro ⟨⟨var, text, hmem⟩, hnone⟩
    obtain ⟨payload, rfl, -⟩ := Yield.ofNode_from _ _ _ _ _ _ _ hmem
    obtain ⟨hne, hscript, -⟩ := Yield.createText_mem_ofText.mp ⟨var, hmem⟩
    exact ⟨⟨payload, hcontent, hne⟩, hscript, fun a ⟨ha, hadm⟩ => hnone a ha hadm⟩

/-- **What keeping root text adds** for a node that is dropped otherwise. -/
theorem Document.Built.dropped_part
    (hdropping : .dropping id ∈ ((s.setKeepRootText false).convert d).1.events) :
    ∃ var text, part = [.createText var text, .appendChild s.options.defaultParent var] := by
  obtain ⟨⟨var, text, hmem⟩, hnone⟩ := (hd.dropping_mem_iff s hpart).mp hdropping
  obtain ⟨content, held?, given, hcontent, -, hheld, rfl⟩ := hd.visits_part hpart
  obtain ⟨payload, rfl, -⟩ := Yield.ofNode_from _ _ _ _ _ _ _ hmem
  have hheld : held? = none := by
    rw [← Option.not_isSome_iff_eq_none, hheld.isSome_iff]
    exact fun ⟨a, ha, hadm⟩ => hnone a ha hadm
  obtain ⟨hne, hscript, -⟩ := Yield.createText_mem_ofText.mp ⟨var, hmem⟩
  rw [hheld, hscript]
  exact ⟨given.advance.name, .ofList (Text.trim payload.toList), by
    simp [Yield.ofNode, Yield.ofText, hne, Options.keeping]⟩

omit hpart in
/-- **Which nodes are dropped**: those for which the other conversion creates a text though no
ancestor is bound. -/
theorem Document.Built.dropping_iff (id : NodeId) :
    let c := ((s.setKeepRootText false).convert d).1
    .dropping id ∈ c.events ↔
      (∃ part var text, (id, part) ∈ d.visits (s.options.keeping true) s.names ∧
        .createText var text ∈ part) ∧
      ∀ a ∈ d.ancestors id, a ∉ c.bindings.toList.map Prod.fst := by
  intro c
  -- above a node that the walk comes to, the bound nodes are the admitted ones
  have hloose : d.Reached s.options.filters id →
      ((∀ a ∈ d.ancestors id, a ∉ c.bindings.toList.map Prod.fst) ↔
        ∀ a ∈ d.ancestors id, ¬ d.Admitted s.options.filters a) := by
    intro hr
    have h := not_congr ((s.setKeepRootText false).told hd rfl hr).bound_iff
    simp only [not_exists, not_and] at h
    exact h
  constructor
  · intro hdropping
    obtain ⟨_, hvisited⟩ := (s.setKeepRootText false).exists_visited hd
    obtain ⟨⟨payload, hc, -⟩, hr, -⟩ := hvisited.dropping_mem_iff.mp
      (((s.setKeepRootText false).dropping_mem_convert hd id).mp hdropping)
    obtain ⟨⟨_, part⟩, hpart, rfl⟩ := List.mem_map.mp
      ((hd.visits_ids (s.options.keeping true) s.names).2 id |>.mpr
        ⟨hd.mem_trees hc (by simp), hr⟩)
    obtain ⟨⟨var, text, hmem⟩, hnone⟩ := (hd.dropping_mem_iff s hpart).mp hdropping
    exact ⟨⟨part, var, text, hpart, hmem⟩, (hloose hr).mpr hnone⟩
  · rintro ⟨⟨part, var, text, hpart, hmem⟩, hnone⟩
    have hr : d.Reached (s.options.keeping true).filters id := hd.reached_of_visited hpart
    exact (hd.dropping_mem_iff s hpart).mpr ⟨⟨var, text, hmem⟩, (hloose hr).mp hnone⟩

end Visited

/-- **Keeping root text only adds it.** In any session, and whatever the options else are, compare
the conversion of a document that drops the texts without a bound ancestor with the one that keeps
them. Both bind the same nodes in the same order and write the same code. The first has the
statements of the second except for those of the nodes that it reports as dropped, under a renaming
that takes the variables kept, in order, to its own; the default parent is no variable and stays.
The bindings are the same under the renaming. The nodes dropped are those for which the second
creates a text though no ancestor is bound, and all that it writes for one of them is to create the
text and to append it to the default parent. -/
theorem convert_keepRootText {d : Document} (hd : d.Built) (s : Session) :
    let c := fun keep => ((s.setKeepRootText keep).convert d).1
    let visits := d.visits (s.setKeepRootText true).options s.names
    let bound := (c true).bindings.toList.map Prod.fst
    let kept := visits.filter fun v => .dropping v.1 ∉ (c false).events
    (c false).bindings.toList.map Prod.fst = bound ∧
      (c false).script.filterMap Statement.code? = (c true).script.filterMap Statement.code? ∧
      (c true).script = visits.flatMap Prod.snd ∧
      (∃ ρ : String → String,
        (declaredVars (kept.flatMap Prod.snd)).map ρ = declaredVars (c false).script ∧
        (∀ x ∈ declaredVars (kept.flatMap Prod.snd), ∀ y ∈ declaredVars (kept.flatMap Prod.snd),
          VariableNames.Before x y → VariableNames.Before (ρ x) (ρ y)) ∧
        (c false).script = kept.flatMap (d.renamed bound ρ) ∧
        (c false).bindings.toList = (c true).bindings.toList.map (Prod.map id ρ)) ∧
      (∀ id, .dropping id ∈ (c false).events ↔
        (∃ part var text, (id, part) ∈ visits ∧ .createText var text ∈ part) ∧
          ∀ a ∈ d.ancestors id, a ∉ bound) ∧
      ∀ id part, (id, part) ∈ visits → .dropping id ∈ (c false).events →
        ∃ var text, part = [.createText var text, .appendChild s.options.defaultParent var] := by
  intro c visits bound kept
  let first := s.setKeepRootText false
  let second := s.setKeepRootText true
  obtain ⟨ρ, hfollows⟩ := s.exists_follows hd
  have hvisits : (second.yield d).parts = visits := (hd.run_start second.options s.names).2.symm
  have hbindings : (c false).bindings.toList = (c true).bindings.toList.map (Prod.map id ρ) := by
    rw [first.convert_bindings hd, second.convert_bindings hd]
    exact hfollows.bindings
  have hbound : (c false).bindings.toList.map Prod.fst = bound := by
    rw [hbindings, List.map_map]
    rfl
  have hparts : (c false).script = visits.flatMap fun v =>
      if .dropping v.1 ∈ (c false).events then [] else d.renamed bound ρ v := by
    rw [first.convert_script hd, Yield.script, hfollows.parts, hvisits, List.flatMap_map,
      ← hbound]
  have hscript : (c false).script = kept.flatMap (d.renamed bound ρ) :=
    hparts.trans (flatMap_filter_not _ _ _).symm
  have hsecond : (c true).script = visits.flatMap Prod.snd :=
    (hd.flatMap_visits second.options s.names).symm
  have hdeclared :
      (declaredVars (kept.flatMap Prod.snd)).map ρ = declaredVars (c false).script := by
    rw [hscript, declaredVars_renamed]
  refine ⟨hbound, ?_, hsecond, ⟨ρ, hdeclared, ?_, hscript, hbindings⟩, fun id => ?_, ?_⟩
  · rw [hparts, hsecond, List.filterMap_flatMap, List.filterMap_flatMap]
    refine List.flatMap_congr fun v hv => ?_
    split
    · rename_i hdropping
      obtain ⟨var, text, hpart⟩ := hd.dropped_part s hv hdropping
      rw [hpart]
      rfl
    · exact filterMap_code?_rename ..
  · refine rel_of_pairwise_map ?_ ?_
    · have hsublist := keptVars_sublist (c false).events (second.yield d)
      rw [keptVars, hvisits, ← second.convert_script hd] at hsublist
      exact (d.pairwise_declaredVars _ _).sublist hsublist
    · rw [hdeclared]
      exact d.pairwise_declaredVars _ _
  · rw [← hbound]
    exact hd.dropping_iff s id
  · exact fun id part hpart hdropping => hd.dropped_part s hpart hdropping

/-- Two texts are dropped, one in front of each element; the default parent reads like a variable
that gets another name. -/
theorem convert_keepRootText_specimen :
    let s := Session.new { Options.default with defaultParent := "_b" }
    let d := Document.empty.appendAll
      [(0, .text "x"), (0, .element ⟨"p"⟩ []), (2, .text "y"), (0, .text "z"),
        (0, .element ⟨"q"⟩ [])]
    let c := fun keep => ((s.setKeepRootText keep).convert d).1
    d.Built ∧
      (c true).script =
        [.createText "_a" "x", .appendChild "_b" "_a",
          .createElement "_b" ⟨"p"⟩, .appendChild "_b" "_b",
          .createText "_c" "y", .appendChild "_b" "_c",
          .createText "_d" "z", .appendChild "_b" "_d",
          .createElement "_e" ⟨"q"⟩, .appendChild "_b" "_e"] ∧
      (c false).script =
        [.createElement "_a" ⟨"p"⟩, .appendChild "_b" "_a",
          .createText "_b" "y", .appendChild "_a" "_b",
          .createElement "_c" ⟨"q"⟩, .appendChild "_b" "_c"] ∧
      ∃ ρ : String → String, ["_b", "_c", "_e"].map ρ = ["_a", "_b", "_c"] ∧
        (c false).bindings.toList = [(2, ρ "_b"), (5, ρ "_e")] := by
  intro s d c
  have hd : d.Built := Document.Built.empty.appendAll (by decide)
  obtain ⟨-, -, -, ⟨ρ, hρ, -, -, hbindings⟩, -⟩ := convert_keepRootText hd s
  have hkept : declaredVars (((d.visits (s.setKeepRootText true).options s.names).filter
      fun v => .dropping v.1 ∉ (c false).events).flatMap Prod.snd) = ["_b", "_c", "_e"] := by
    decide +kernel
  have hdeclared : declaredVars (c false).script = ["_a", "_b", "_c"] := by decide +kernel
  have hbound : (c true).bindings.toList = [(2, "_b"), (5, "_e")] := by decide +kernel
  refine ⟨hd, by decide +kernel, by decide +kernel, ρ, ?_, ?_⟩
  · rw [← hkept, hρ, ← hdeclared]
  · rw [hbindings, hbound]
    rfl

end DomScript
