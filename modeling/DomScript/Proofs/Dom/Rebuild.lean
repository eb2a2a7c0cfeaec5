/-
DomScript.Proofs.Dom.Rebuild — the script of a document builds the document.

`Forest.rebuilt` says which forest the filters leave of a document. `Builds` says of a yield that
its statements, carried out on a page, append trees to one parent, under names that were still to
come and are not to come again. Yields that build put together build (`Builds.andThen`,
`Builds.inside`), so the recursion of the conversion does:

* `Forest.rebuilds` — one level, by induction over the forest;
* `convert_rebuilds` — the script of a whole document, on an empty page.
-/
import DomScript.Proofs.Conversion.Recursion
import DomScript.Proofs.Dom.Execution
import DomScript.Proofs.VariableNames

namespace DomScript

/-! ## What is left of a document -/

/-- What is left of a text: a text node, if there is more than blank space in it, it does not stand
right below a script element, and either an element is above it or the options keep such texts. -/
def textTree (o : Options) (held inScript : Bool) (payload : String) : Forest Made :=
  let text := Text.trim payload.toList
  if text.isEmpty || inScript || !(held || o.keepRootText) then .nil
  else .node (.text (.ofList text)) .nil .nil

/-- The forest that the filters leave of a document. An eligible element is a node, and the nodes
of its children are below it. Any other element or node gives way to the nodes of its children.
Ignored elements have no such nodes, and neither have texts. -/
def Forest.rebuilt (o : Options) (held inScript : Bool) :
    Forest (NodeId × Content) → Forest Made
  | .nil => .nil
  | .node (_, .text payload) _ siblings =>
    textTree o held inScript payload ++ rebuilt o held inScript siblings
  | .node (_, .element tag attributes) children siblings =>
    let eligible := o.filters.isEligible (some tag)
    let below :=
      if o.filters.isIgnored (some tag) then .nil
      else rebuilt o (held || eligible) (tag == .script) children
    (if eligible then .node (.element tag (attributes.flatMap Attribute.settings)) below .nil
      else below) ++ rebuilt o held inScript siblings
  | .node _ children siblings => rebuilt o held false children ++ rebuilt o held inScript siblings

theorem Forest.rebuilt_node (o : Options) (held inScript : Bool) (a : NodeId × Content)
    (kids sibs : Forest (NodeId × Content)) :
    Forest.rebuilt o held inScript (.node a kids sibs) =
      Forest.rebuilt o held inScript (.node a kids .nil) ++ sibs.rebuilt o held inScript := by
  obtain ⟨id, content⟩ := a
  cases content <;> simp only [rebuilt, append_nil]

/-! ## Building below one parent -/

namespace Dom

/-- The page before more is built: the objects on it were created, and neither their variables nor
the default parent are names to come. -/
structure Prepared (defaultParent : String) (names : VariableNames) (created : List String)
    (page : Forest (String × Made)) : Prop where
  page_created : ∀ x ∈ page.vars, x ∈ created
  created_given : ∀ x ∈ created, ¬ names.Later x
  default_given : ¬ names.Later defaultParent
  default_new : defaultParent ∉ created

/-- The statements of `y` append `trees` to `parent`, each object once, and take their variables
from `names`. -/
structure Builds (defaultParent : String) (created : List String) (page : Forest (String × Made))
    (parent : String) (names : VariableNames) (y : Yield) (trees : Forest (String × Made)) :
    Prop where
  run : Dom.run defaultParent ⟨created, .nil, page⟩ y.script =
    some ⟨created ++ trees.vars, .nil, graft defaultParent page parent trees⟩
  appended : y.script.filterMap Statement.appends? = trees.vars
  precedes : names.Precedes y.names
  taken : ∀ x ∈ trees.vars, names.Later x ∧ ¬ y.names.Later x

variable {defaultParent parent var : String} {created : List String}
  {page trees more : Forest (String × Made)} {names : VariableNames} {y : Yield}
  {next : VariableNames → Yield} {made : Made}

/-- After building, the page is prepared for what follows. -/
theorem Builds.prepared (b : Builds defaultParent created page parent names y trees)
    (h : Prepared defaultParent names created page)
    (hp : parent = defaultParent ∨ parent ∈ page.vars) :
    Prepared defaultParent y.names (created ++ trees.vars)
      (graft defaultParent page parent trees) where
  page_created x hx := by
    rw [List.mem_append]
    rcases (mem_vars_graft hp).mp hx with hx | hx
    · exact .inl (h.page_created x hx)
    · exact .inr hx
  created_given x hx hl := by
    rcases List.mem_append.mp hx with hx | hx
    · exact h.created_given x hx (b.precedes.later hl)
    · exact (b.taken x hx).2 hl
  default_given hl := h.default_given (b.precedes.later hl)
  default_new hx := by
    rcases List.mem_append.mp hx with hx | hx
    · exact h.default_new hx
    · exact h.default_given (b.taken _ hx).1

/-- A parent that is there is not among the new objects. -/
theorem Builds.parent_notMem (b : Builds defaultParent created page parent names y trees)
    (h : Prepared defaultParent names created page)
    (hp : parent = defaultParent ∨ parent ∈ page.vars) : parent ∉ trees.vars := by
  intro hx
  have hl := (b.taken parent hx).1
  rcases hp with rfl | hp
  · exact h.default_given hl
  · exact h.created_given _ (h.page_created _ hp) hl

/-- Building twice below one parent. -/
theorem Builds.andThen (b : Builds defaultParent created page parent names y trees)
    (hp : parent ∉ trees.vars)
    (c : Builds defaultParent (created ++ trees.vars) (graft defaultParent page parent trees) parent
      y.names (next y.names) more) :
    Builds defaultParent created page parent names (y.andThen next) (trees ++ more) where
  run := by
    rw [Yield.andThen_script, run_append, b.run, Option.bind_some, c.run, graft_graft hp,
      Forest.vars_append, List.append_assoc]
  appended := by
    rw [Yield.andThen_script, List.filterMap_append, b.appended, c.appended, Forest.vars_append]
  precedes := b.precedes.trans c.precedes
  taken x hx := by
    rw [Forest.vars_append, List.mem_append] at hx
    rcases hx with hx | hx
    · exact ⟨(b.taken x hx).1, fun hl => (b.taken x hx).2 (c.precedes.later hl)⟩
    · exact ⟨b.precedes.later (c.taken x hx).1, (c.taken x hx).2⟩

/-- Building one object, and then below it. -/
theorem Builds.inside
    (b : Builds defaultParent created page parent names y (.node (var, made) .nil .nil))
    (h : Prepared defaultParent names created page)
    (c : Builds defaultParent (created ++ [var])
      (graft defaultParent page parent (.node (var, made) .nil .nil)) var y.names (next y.names)
      more) :
    Builds defaultParent created page parent names (y.andThen next)
      (.node (var, made) more .nil) where
  run := by
    have hl : names.Later var := (b.taken var (by simp)).1
    have hdef : var ≠ defaultParent := fun he => h.default_given (he ▸ hl)
    have hpage : var ∉ page.vars := fun hx => h.created_given _ (h.page_created _ hx) hl
    have hleaf : (Forest.node (var, made) .nil .nil).vars = [var] := by simp
    rw [Yield.andThen_script, run_append, b.run, Option.bind_some, hleaf, c.run,
      graft_leaf hdef hpage]
    simp
  appended := by
    rw [Yield.andThen_script, List.filterMap_append, b.appended, c.appended]
    simp
  precedes := b.precedes.trans c.precedes
  taken x hx := by
    simp only [Forest.vars_node, Forest.vars_nil, List.append_nil, List.mem_cons] at hx
    rcases hx with rfl | hx
    · have hb := b.taken x (by simp)
      exact ⟨hb.1, fun hl => hb.2 (c.precedes.later hl)⟩
    · exact ⟨b.precedes.later (c.taken x hx).1, (c.taken x hx).2⟩

/-- Statements that create nothing and change nothing build nothing. -/
theorem builds_nil (hrun : ∀ dom, run defaultParent dom y.script = some dom)
    (happ : y.script.filterMap Statement.appends? = []) (hnames : y.names = names) :
    Builds defaultParent created page parent names y .nil where
  run := by simp [hrun]
  appended := by simp [happ]
  precedes := hnames ▸ .refl _
  taken := by simp

/-! ### What a node builds -/

section Node

variable {o : Options} {parent? : Option String} {inScript : Bool} {id : NodeId}

/-- A fresh variable is in nobody's way. -/
theorem Prepared.fresh (h : Prepared defaultParent names created page) :
    names.advance.name ∉ created ∧ names.advance.name ∉ page.vars :=
  have hl := names.later_advance
  ⟨fun hx => h.created_given _ hx hl, fun hx => h.created_given _ (h.page_created _ hx) hl⟩

/-- Statements that create an object, make settings on it and append it build one leaf. -/
theorem builds_leaf {events : List Event} {bindings : List (NodeId × String)} {s : Statement}
    {first : Made} (settings : List Setting)
    (hs : ∀ dom, step defaultParent dom s = dom.create names.advance.name first)
    (hset : run defaultParent
        ⟨created ++ [names.advance.name], .node (names.advance.name, first) .nil .nil, page⟩
        (settings.map (Setting.on names.advance.name)) =
      some ⟨created ++ [names.advance.name], .node (names.advance.name, made) .nil .nil, page⟩)
    (h : Prepared defaultParent names created page)
    (hp : parent = defaultParent ∨ parent ∈ page.vars) (hsapp : s.appends? = none) :
    Builds defaultParent created page parent names
      (.single id
        (s :: (settings.map (Setting.on names.advance.name) ++
          [.appendChild parent names.advance.name])) bindings events names.advance)
      (.node (names.advance.name, made) .nil .nil) where
  run := by
    have hcreate : step defaultParent ⟨created, .nil, page⟩ s =
        some ⟨created ++ [names.advance.name], .node (names.advance.name, first) .nil .nil,
          page⟩ := by
      rw [hs, create, if_neg h.fresh.1]
      rfl
    rw [Yield.single_script, run_cons, hcreate, Option.bind_some, run_append, hset,
      Option.bind_some, run_cons]
    show (append defaultParent _ _ _).bind _ = _
    rw [append_single hp]
    simp [run]
  appended := by
    have hnone : (settings.map (Setting.on names.advance.name)).filterMap Statement.appends? =
        [] := by
      rw [List.filterMap_eq_nil_iff]
      intro s hs
      obtain ⟨setting, -, rfl⟩ := List.mem_map.mp hs
      cases setting <;> rfl
    rw [Yield.single_script, List.filterMap_cons, hsapp, List.filterMap_append, hnone]
    rfl
  precedes := names.precedes_advance
  taken x hx := by
    obtain rfl : x = names.advance.name := by simpa using hx
    exact ⟨names.later_advance, names.not_later_advance⟩

/-- An eligible element builds one object, with the settings of its attributes. -/
theorem builds_element (id : NodeId) {tag : Tag} (attributes : List Attribute)
    (he : o.filters.isEligible (some tag) = true)
    (h : Prepared o.defaultParent names created page)
    (hp : parent?.getD o.defaultParent = o.defaultParent ∨
      parent?.getD o.defaultParent ∈ page.vars) :
    Builds o.defaultParent created page (parent?.getD o.defaultParent) names
      (.ofElement o parent? id tag attributes names)
      (.node (names.advance.name, .element tag (attributes.flatMap Attribute.settings))
        .nil .nil) := by
  have hy : Yield.ofElement o parent? id tag attributes names =
      .single id
        (.createElement names.advance.name tag ::
          ((attributes.flatMap Attribute.settings).map (Setting.on names.advance.name) ++
            [.appendChild (parent?.getD o.defaultParent) names.advance.name]))
        [(id, names.advance.name)] [.emitting id tag names.advance.name] names.advance := by
    simp [Yield.ofElement, he, Attribute.flatMap_statements]
  rw [hy]
  exact builds_leaf _ (fun dom => rfl) (run_settings (by simp) h.fresh.2 [] _) h hp rfl

/-- A text builds what is left of it. -/
theorem builds_text (payload : String) (h : Prepared o.defaultParent names created page)
    (hp : parent?.getD o.defaultParent = o.defaultParent ∨
      parent?.getD o.defaultParent ∈ page.vars) :
    ∃ trees, Builds o.defaultParent created page (parent?.getD o.defaultParent) names
      (.ofText o parent? inScript id payload names) trees ∧
      trees.map Prod.snd = textTree o parent?.isSome inScript payload := by
  rcases Yield.ofText_cases o parent? inScript id payload names with
    ⟨events, hy, hcond⟩ | ⟨hne, hs, hy⟩ | ⟨hne, hs, hheld, hy⟩
  · rw [hy]
    refine ⟨.nil, builds_nil (fun dom => rfl) rfl rfl, ?_⟩
    rcases hcond with hblank | ⟨-, hnone, hkeep⟩
    · simp [textTree, hblank, Forest.map]
    · simp [textTree, hnone, hkeep, Forest.map]
  · rw [hy]
    refine ⟨.nil, builds_nil (fun dom => rfl) rfl rfl, ?_⟩
    simp [textTree, hs, Forest.map]
  · rw [hy]
    refine ⟨_, builds_leaf [] (fun dom => rfl) rfl h hp rfl, ?_⟩
    rcases hheld with hheld | hheld <;> simp [textTree, hne, hs, hheld, Forest.map]

end Node

/-- A node that gives nothing by itself builds what is below it. -/
theorem Builds.pass {id : NodeId}
    (b : Builds defaultParent created page parent names (next names) trees) :
    Builds defaultParent created page parent names
      ((Yield.single id [] [] [] names).andThen next) trees where
  run := by rw [Yield.andThen_script, Yield.single_script]; exact b.run
  appended := by rw [Yield.andThen_script, Yield.single_script]; exact b.appended
  precedes := b.precedes
  taken := b.taken

end Dom

/-! ## Building whole documents -/

namespace Forest

open Dom

/-- What the recursion gives for `f` builds what is left of `f`, below the object that was handed
down or below the default parent. -/
def Rebuilds (o : Options) (f : Forest (NodeId × Content)) : Prop :=
  ∀ (parent? : Option String) (inScript : Bool) (names : VariableNames) (created : List String)
    (page : Forest (String × Made)), Prepared o.defaultParent names created page →
    (∀ parent ∈ parent?, parent ∈ page.vars) →
    ∃ trees, Builds o.defaultParent created page (parent?.getD o.defaultParent) names
      (f.convert o parent? inScript names) trees ∧
      trees.map Prod.snd = f.rebuilt o parent?.isSome inScript

variable {o : Options} {id : NodeId} {kids sibs : Forest (NodeId × Content)}

/-- The object that was handed down is on the page, and so is the default parent. -/
theorem parent_mem {parent? : Option String} {page : Forest (String × Made)}
    (hparent : ∀ parent ∈ parent?, parent ∈ page.vars) :
    parent?.getD o.defaultParent = o.defaultParent ∨
      parent?.getD o.defaultParent ∈ page.vars := by
  cases parent? with
  | none => exact .inl rfl
  | some parent => exact .inr (hparent parent rfl)

theorem rebuilds_text (payload : String) : Rebuilds o (.node (id, .text payload) kids .nil) := by
  intro parent? inScript names created page h hparent
  rw [convert_node_nil]
  simp only [Filters.descends, Bool.false_eq_true, if_false, Yield.andThen_nothing, rebuilt,
    append_nil]
  exact builds_text payload h (parent_mem hparent)

/-- An eligible element: its object, and below it what is left of its children. -/
theorem Rebuilds.element (hk : Rebuilds o kids) {tag : Tag} {attributes : List Attribute}
    (he : o.filters.isEligible (some tag) = true) :
    Rebuilds o (.node (id, .element tag attributes) kids .nil) := by
  intro parent? inScript names created page h hparent
  have hp := parent_mem (o := o) hparent
  have hb := builds_element id attributes he h hp
  have hvar : (Yield.ofNode o parent? inScript id (.element tag attributes) names).firstVar? =
      some names.advance.name := by
    simp [Yield.ofNode, Yield.ofElement, he, Yield.firstVar?, Yield.single]
  rw [convert_node_nil, hvar, Option.some_or]
  by_cases hi : o.filters.isIgnored (some tag)
  · refine ⟨.node (names.advance.name, .element tag (attributes.flatMap Attribute.settings))
      .nil .nil, ?_, by simp [rebuilt, he, hi, map]⟩
    simp only [Filters.descends, hi, Bool.not_true, Bool.false_eq_true, if_false,
      Yield.andThen_nothing]
    exact hb
  · have hpage : ∀ parent ∈ some names.advance.name, parent ∈
        (graft o.defaultParent page (parent?.getD o.defaultParent)
          (.node (names.advance.name, .element tag (attributes.flatMap Attribute.settings))
            .nil .nil)).vars := by
      rintro parent ⟨⟩
      exact (mem_vars_graft hp).mpr (.inr (by simp))
    obtain ⟨below, hbelow, hmap⟩ := hk _ (tag == .script) _ _ _ (hb.prepared h hp) hpage
    refine ⟨.node (names.advance.name, .element tag (attributes.flatMap Attribute.settings))
      below .nil, hb.inside h ?_, ?_⟩
    · simp only [Filters.descends, hi, Bool.not_false, if_true]
      exact hbelow
    · rw [Option.isSome_some] at hmap
      simp [rebuilt, he, hi, map, hmap]

/-- An element that is not eligible gives way to what is left of its children. -/
theorem Rebuilds.transparent (hk : Rebuilds o kids) {tag : Tag} {attributes : List Attribute}
    (he : o.filters.isEligible (some tag) = false) :
    Rebuilds o (.node (id, .element tag attributes) kids .nil) := by
  intro parent? inScript names created page h hparent
  have hhere : Yield.ofNode o parent? inScript id (.element tag attributes) names =
      .single id [] [] [] names := by
    simp [Yield.ofNode, Yield.ofElement, he]
  rw [convert_node_nil, hhere]
  by_cases hi : o.filters.isIgnored (some tag)
  · refine ⟨.nil, ?_, by simp [rebuilt, he, hi, map]⟩
    simp only [Filters.descends, hi, Bool.not_true, Bool.false_eq_true, if_false,
      Yield.andThen_nothing]
    exact builds_nil (fun dom => rfl) rfl rfl
  · obtain ⟨below, hbelow, hmap⟩ := hk parent? (tag == .script) _ _ _ h hparent
    refine ⟨below, ?_, by simp [rebuilt, he, hi, hmap]⟩
    simp only [Filters.descends, hi, Bool.not_false, if_true]
    exact hbelow.pass

/-- A node and its siblings. -/
theorem Rebuilds.node (ht : Rebuilds o (.node (id, content) kids .nil)) (hs : Rebuilds o sibs) :
    Rebuilds o (.node (id, content) kids sibs) := by
  intro parent? inScript names created page h hparent
  have hp := parent_mem (o := o) hparent
  obtain ⟨trees, hb, htrees⟩ := ht parent? inScript _ _ _ h hparent
  obtain ⟨more, hm, hmore⟩ := hs parent? inScript _ _ _ (hb.prepared h hp) fun parent hpar =>
    (mem_vars_graft hp).mpr (.inl (hparent parent hpar))
  refine ⟨trees ++ more, ?_, ?_⟩
  · rw [convert_node]
    exact hb.andThen (hb.parent_notMem h hp) hm
  · rw [map_append, htrees, hmore, ← rebuilt_node]

/-- **The recursion builds what is left**, whatever the forest. -/
theorem rebuilds (o : Options) (f : Forest (NodeId × Content)) : Rebuilds o f := by
  induction f with
  | nil => exact fun _ _ _ _ _ _ _ => ⟨.nil, builds_nil (fun dom => rfl) rfl rfl, rfl⟩
  | node a kids sibs ihk ihs =>
    obtain ⟨id, content⟩ := a
    refine Rebuilds.node ?_ ihs
    cases content with
    | text payload => exact rebuilds_text payload
    | element tag attributes =>
      cases he : o.filters.isEligible (some tag) with
      | true => exact ihk.element he
      | false => exact ihk.transparent he
    | _ =>
      intro parent? inScript names created page h hparent
      obtain ⟨below, hbelow, hmap⟩ := ihk parent? false _ _ _ h hparent
      refine ⟨below, ?_, by simpa [rebuilt] using hmap⟩
      rw [convert_node_nil]
      exact hbelow.pass

end Forest

/-- **The script of a document builds the document.** Its lines are statements that run on an empty
page: none uses a variable before it is created, none creates one twice, and every created object is
appended once. In the end nothing hangs loose, and the default parent has what is left of the
document. -/
theorem convert_rebuilds {d : Document} (hd : d.Built) (o : Options) (names : VariableNames)
    (hdef : ∀ letters : List Letter, letters ≠ [] →
      o.defaultParent ≠ names.stem ++ .ofList (VariableNames.word letters)) :
    let c := d.convert o names
    c.text = String.join (c.script.map fun s => s.render ++ "\n") ∧
      (∃ dom, Dom.run o.defaultParent .empty c.script = some dom ∧ dom.loose = .nil ∧
        dom.page.map Prod.snd = d.trees.rebuilt o false false) ∧
      (∀ pre s post, c.script = pre ++ s :: post →
        Dom.InOrder o.defaultParent (pre.filterMap Statement.creates?) s) ∧
      (c.script.filterMap Statement.creates?).Nodup ∧
      c.script.filterMap Statement.appends? = c.script.filterMap Statement.creates? := by
  intro c
  have hprep : Dom.Prepared o.defaultParent names [] .nil :=
    ⟨by simp, by simp, VariableNames.not_later_of_ne hdef, by simp⟩
  obtain ⟨trees, hb, htrees⟩ := Forest.rebuilds o d.trees none false names [] .nil hprep (by simp)
  have hc : c.script = (d.trees.convert o none false names).script := by
    show (d.convert o names).script = _
    rw [hd.convert_eq]
    rfl
  have hgraft : Dom.graft o.defaultParent .nil o.defaultParent trees = trees := by
    simp [Dom.graft]
  have hrun : Dom.run o.defaultParent .empty c.script = some ⟨trees.vars, .nil, trees⟩ := by
    have h := hb.run
    rw [← hc, Option.getD_none, hgraft] at h
    exact h
  have hclosed : Dom.empty.Closed := by simp [Dom.Closed, Dom.empty]
  obtain ⟨hcreated, hnodup, horder⟩ := Dom.run_spec hclosed hrun
  have hvars : c.script.filterMap Statement.creates? = trees.vars := hcreated.symm
  refine ⟨rfl, ⟨_, hrun, rfl, htrees⟩, horder, ?_, ?_⟩
  · rw [hvars]
    exact hnodup List.nodup_nil
  · rw [hvars, hc]
    exact hb.appended

/-- The specimen: neither the document nor the default options get in the way. -/
theorem convert_rebuilds_specimen :
    Document.specimen.Built ∧
    (∀ letters : List Letter, letters ≠ [] →
      Options.default.defaultParent ≠
        (VariableNames.new "_").stem ++ .ofList (VariableNames.word letters)) ∧
    ∃ dom, Dom.run "document.body" .empty
      (Document.specimen.convert .default (.new "_")).script = some dom ∧ dom.loose = .nil ∧
      dom.page.map Prod.snd = Document.specimen.trees.rebuilt .default false false := by
  have hdef : ∀ letters : List Letter, letters ≠ [] →
      Options.default.defaultParent ≠
        (VariableNames.new "_").stem ++ .ofList (VariableNames.word letters) := by
    intro letters _ h
    have hl := congrArg String.toList h
    simp [Options.default, VariableNames.new] at hl
  exact ⟨Document.specimen_built, hdef,
    (convert_rebuilds Document.specimen_built .default (.new "_") hdef).2.1⟩

end DomScript
