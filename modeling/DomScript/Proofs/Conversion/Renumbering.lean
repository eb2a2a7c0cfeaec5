/-
DomScript.Proofs.Conversion.Renumbering — a conversion sees the tree, not the numbers of its nodes.

The numbers of the nodes go into the bindings and the reports and nowhere else: the recursion hands
down a variable and looks nothing up. So the recursion over a renumbered forest gives the same
script from the same names, and documents that hold the same tree under other numbers are converted
alike.

* `Forest.convert_renumber` — the recursion over a renumbered forest;
* `Forest.convert_of_shape` — the script and the names depend on the shape of the forest only;
* `convert_renumbered` — the conversions of documents that renumber to each other.
-/
import DomScript.Proofs.Conversion.Recursion
import DomScript.Proofs.Document.Shape

namespace DomScript

/-! ## Yields that agree -/

/-- Two yields with the same script and the same names behind it. -/
structure Yield.Agrees (y z : Yield) : Prop where
  script : y.script = z.script
  names : y.names = z.names

theorem Yield.Agrees.refl (y : Yield) : y.Agrees y :=
  ⟨rfl, rfl⟩

theorem Yield.Agrees.symm {y z : Yield} (h : y.Agrees z) : z.Agrees y :=
  ⟨h.script.symm, h.names.symm⟩

theorem Yield.Agrees.trans {x y z : Yield} (hxy : x.Agrees y) (hyz : y.Agrees z) : x.Agrees z :=
  ⟨hxy.script.trans hyz.script, hxy.names.trans hyz.names⟩

/-- What follows goes on from the same names. -/
theorem Yield.Agrees.andThen {y z : Yield} {next next' : VariableNames → Yield} (h : y.Agrees z)
    (hnext : ∀ names, (next names).Agrees (next' names)) :
    (y.andThen next).Agrees (z.andThen next') := by
  constructor
  · rw [andThen_script, andThen_script, h.script, h.names, (hnext z.names).script]
  · rw [andThen_names, andThen_names, h.names, (hnext z.names).names]

/-- A node that gives nothing leaves what follows it as it is. -/
theorem Yield.agrees_single_andThen (id : NodeId) (names : VariableNames)
    (next : VariableNames → Yield) :
    (next names).Agrees ((Yield.single id [] [] [] names).andThen next) := by
  constructor
  · rw [Yield.andThen_script, Yield.single_script]
    rfl
  · rfl

/-- Documents whose yields agree give the same text and leave the same session behind. -/
theorem Session.convert_of_agrees {s : Session} {d e : Document} (hd : d.Built) (he : e.Built)
    (h : (s.yield e).Agrees (s.yield d)) :
    (s.convert e).1.text = (s.convert d).1.text ∧ (s.convert e).2 = (s.convert d).2 := by
  constructor
  · rw [Conversion.text, Conversion.text, s.convert_script he, s.convert_script hd, h.script]
  · rw [s.convert_session he, s.convert_session hd, h.script, h.names]

/-! ## Results under other numbers -/

/-- A report under other numbers. -/
def Event.renumber (σ : NodeId → NodeId) : Event → Event
  | .emitting node tag var => .emitting (σ node) tag var
  | .dropping node => .dropping (σ node)
  | .converted nodes elements bytes => .converted nodes elements bytes

namespace Yield

/-- A yield under other numbers. -/
def renumber (σ : NodeId → NodeId) (y : Yield) : Yield where
  parts := y.parts.map (Prod.map σ id)
  bindings := y.bindings.map (Prod.map σ id)
  events := y.events.map (Event.renumber σ)
  names := y.names

variable (σ : NodeId → NodeId) (y : Yield)

@[simp] theorem renumber_bindings :
    (y.renumber σ).bindings = y.bindings.map (Prod.map σ id) := rfl

@[simp] theorem renumber_events : (y.renumber σ).events = y.events.map (Event.renumber σ) := rfl

@[simp] theorem renumber_script : (y.renumber σ).script = y.script := by
  simp only [script, renumber, List.flatMap_map]
  rfl

@[simp] theorem renumber_firstVar? : (y.renumber σ).firstVar? = y.firstVar? := by
  simp only [firstVar?, renumber_bindings, List.head?_map, Option.map_map]
  rfl

theorem agrees_renumber : (y.renumber σ).Agrees y :=
  ⟨renumber_script σ y, rfl⟩

theorem renumber_andThen (next : VariableNames → Yield) :
    (y.andThen next).renumber σ = (y.renumber σ).andThen fun names => (next names).renumber σ := by
  simp only [andThen, renumber, List.map_append]

/-- The number of a visited node goes into what it gives, and decides nothing. -/
theorem ofNode_renumber (o : Options) (parent? : Option String) (inScript : Bool) (id : NodeId)
    (content : Content) (names : VariableNames) :
    ofNode o parent? inScript (σ id) content names =
      (ofNode o parent? inScript id content names).renumber σ := by
  cases content with
  | text payload =>
    simp only [ofNode, ofText]
    split
    · rfl
    · split
      · rfl
      · split
        · rfl
        · split
          · rfl
          · rfl
  | element tag attributes =>
    simp only [ofNode, ofElement]
    split
    · rfl
    · rfl
  | _ => rfl

end Yield

/-! ## The recursion -/

namespace Forest

/-- **The recursion over a renumbered forest** gives the same under the new numbers. -/
theorem convert_renumber (σ : NodeId → NodeId) (o : Options) (parent? : Option String)
    (inScript : Bool) (f : Forest (NodeId × Content)) (names : VariableNames) :
    (f.renumber σ).convert o parent? inScript names =
      (f.convert o parent? inScript names).renumber σ := by
  induction f generalizing parent? inScript names with
  | nil => rfl
  | node a kids sibs ihk ihs =>
    obtain ⟨id, content⟩ := a
    -- what follows a node is a function of the names
    have hkids := fun parent? inScript => funext (ihk parent? inScript)
    have hsibs := fun parent? inScript => funext (ihs parent? inScript)
    simp only [renumber_node, convert, Yield.ofNode_renumber, Yield.renumber_andThen,
      Yield.renumber_firstVar?, hkids, hsibs]
    split
    · rfl
    · rfl

/-- The script and the names depend on the shape of the forest only. -/
theorem convert_of_shape {f g : Forest (NodeId × Content)} (hf : f.ids.Nodup)
    (h : g.shape = f.shape) (o : Options) (parent? : Option String) (inScript : Bool)
    (names : VariableNames) :
    (g.convert o parent? inScript names).Agrees (f.convert o parent? inScript names) := by
  obtain ⟨σ, rfl⟩ := exists_renumber hf h
  rw [convert_renumber]
  exact Yield.agrees_renumber σ _

end Forest

/-! ## Documents -/

namespace Document

variable {d e : Document} {σ : NodeId → NodeId}

theorem Renumbers.trees_eq (h : Renumbers σ d e) (hd : d.Built) (he : e.Built) :
    e.trees = d.trees.renumber σ := by
  rw [trees, h.forest_eq hd he, hd.forest_eq]
  rfl

theorem Renumbers.size_eq (h : Renumbers σ d e) (hd : d.Built) (he : e.Built) :
    e.size = d.size := by
  have hlength := congrArg List.length (h.ids_eq hd he)
  simpa [Forest.ids, he.represents.length_labels, hd.represents.length_labels] using hlength

end Document

/-- **Node numbering does not matter.** If a map keeps the document node, what every node holds and
the children of every node in order, then it numbers the nodes anew (`Document.Renumbers.bijOn`),
and in any session the two documents give the same text and leave the same session behind. The
bindings agree one by one under the new numbers, and so do the reports. -/
theorem convert_renumbered {d e : Document} {σ : NodeId → NodeId} (hd : d.Built) (he : e.Built)
    (h : Document.Renumbers σ d e) (s : Session) :
    (s.convert e).1.text = (s.convert d).1.text ∧
      (s.convert e).2 = (s.convert d).2 ∧
      (s.convert e).1.bindings.toList =
        (s.convert d).1.bindings.toList.map (Prod.map σ id) ∧
      (s.convert e).1.events = (s.convert d).1.events.map (Event.renumber σ) := by
  have hyield : s.yield e = (s.yield d).renumber σ := by
    rw [Session.yield, h.trees_eq hd he, Forest.convert_renumber]
    rfl
  have hagrees : (s.yield e).Agrees (s.yield d) := hyield ▸ Yield.agrees_renumber σ _
  obtain ⟨htext, hsession⟩ := Session.convert_of_agrees hd he hagrees
  refine ⟨htext, hsession, ?_, ?_⟩
  · rw [s.convert_bindings he, s.convert_bindings hd, hyield, Yield.renumber_bindings]
  · rw [s.convert_events he, s.convert_events hd, hagrees.script, hyield, h.size_eq hd he]
    simp [Event.renumber]

/-- A list behind a paragraph, once built in the order of the document and once level by level. -/
theorem convert_renumbered_specimen :
    let d := Document.empty.appendAll
      [(0, .element ⟨"p"⟩ []), (1, .text "x"), (0, .comment "y"), (3, .element ⟨"ul"⟩ [])]
    let e := Document.empty.appendAll
      [(0, .element ⟨"p"⟩ []), (0, .comment "y"), (2, .element ⟨"ul"⟩ []), (1, .text "x")]
    let σ : NodeId → NodeId := fun id => [0, 1, 4, 2, 3].getD id 0
    let s := Session.new .default
    d.Built ∧ e.Built ∧ Document.Renumbers σ d e ∧
      (s.convert d).1.bindings.toList = [(1, "_a"), (4, "_c")] ∧
      (s.convert e).1.bindings.toList = [(1, "_a"), (3, "_c")] ∧
      (s.convert e).2 = (s.convert d).2 := by
  intro d e σ s
  have hd : d.Built := Document.Built.empty.appendAll (by decide)
  have he : e.Built := Document.Built.empty.appendAll (by decide)
  have hσ : Document.Renumbers σ d e := ⟨by decide, by decide, by decide⟩
  have hconvert := convert_renumbered hd he hσ s
  have hbound : (s.convert d).1.bindings.toList = [(1, "_a"), (4, "_c")] := by decide +kernel
  refine ⟨hd, he, hσ, hbound, ?_, hconvert.2.1⟩
  rw [hconvert.2.2.1, hbound]
  rfl

end DomScript
