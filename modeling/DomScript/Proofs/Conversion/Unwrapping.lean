/-
DomScript.Proofs.Conversion.Unwrapping — what is not created can be taken away.

A node that is neither a text nor created writes nothing and takes no name, and its children see the
variable that it sees. So it can be replaced by its children, or removed with them if the walk does
not go into it, and the script stays as it was. Only whether a text is code is told from the parent
of the text alone: therefore neither the node nor its parent may be a script element.

* `Forest.convert_splice` — a change at one place goes unseen if it goes unseen at that place;
* `Forest.Hollow` — the nodes that give nothing themselves (`Forest.convert_unwrap`,
  `Forest.convert_prune`);
* `convert_unwrapped` — documents with and without such a node.
-/
import DomScript.Proofs.Conversion.Reach
import DomScript.Proofs.Conversion.Sequence

namespace DomScript

/-! ## Forests with one node replaced -/

namespace Forest

section Splice

variable {α : Type}

/-- A forest with what `r` makes of the children of the node `x` in the place of that node among its
siblings. -/
def splice (x : NodeId) (r : Forest (NodeId × α) → Forest (NodeId × α)) :
    Forest (NodeId × α) → Forest (NodeId × α)
  | nil => nil
  | node (id, a) children siblings =>
    if id = x then r children ++ siblings
    else node (id, a) (splice x r children) (splice x r siblings)

/-- A forest in which a node is replaced by its children. -/
def unwrap (x : NodeId) : Forest (NodeId × α) → Forest (NodeId × α) :=
  splice x fun children => children

/-- A forest in which a node is removed with all that is below it. -/
def prune (x : NodeId) : Forest (NodeId × α) → Forest (NodeId × α) :=
  splice x fun _ => nil

end Splice

/-- **A change at one place.** If at the place of `x` the recursion gives for the new trees what it
gives for `x`, then it does so for the whole forest. Where it does not come to `x`, anything may
stand. -/
theorem convert_splice {d : Document} (hd : d.Built) {o : Options} {x : NodeId}
    {r : Forest (NodeId × Content) → Forest (NodeId × Content)}
    (hplace : d.Reached o.filters x → ∀ content kids parent? names,
      d.content? x = some content →
      (convert o parent? (d.inScript x) (r kids) names).Agrees
        (convert o parent? (d.inScript x) (.node (x, content) kids .nil) names))
    {f : Forest (NodeId × Content)} {above : Option NodeId} (h : d.Linked above f)
    (hopen : ∀ a ∈ d.upFrom above, ∀ content, d.content? a = some content →
      o.filters.Opens content) (parent? : Option String) (names : VariableNames) :
    (convert o parent? (d.scriptBelow above) (f.splice x r) names).Agrees
      (convert o parent? (d.scriptBelow above) f names) := by
  induction f generalizing above parent? names with
  | nil => exact .refl _
  | node a kids sibs ihk ihs =>
    obtain ⟨id, content⟩ := a
    obtain ⟨hn, hk, hs⟩ := h
    have hcontent : d.content? id = some content := Document.content?_of_node? hn
    have hup : d.ancestors id = d.upFrom above := hd.ancestors_eq hn
    rw [convert_node, splice]
    split
    · -- the place itself: the siblings behind it go on from the same names
      rename_i hid
      subst hid
      have hreached : d.Reached o.filters id := by
        rw [Document.Reached, hup]
        exact hopen
      rw [convert_append, ← Document.inScript_eq hn]
      exact (hplace hreached content kids parent? names hcontent).andThen fun _ => .refl _
    · -- the place is below the node or behind it, or not in this forest at all
      rw [convert_node, convert_node_nil, convert_node_nil]
      refine Yield.Agrees.andThen (.andThen (.refl _) fun names => ?_)
        fun names => ihs hs hopen parent? names
      split
      · rename_i hdesc
        rw [← Document.scriptBelow_some hcontent]
        exact ihk hk (hd.opens_below hn hdesc hopen) _ names
      · exact .refl _

/-! ## Nodes that give nothing themselves -/

/-- Nodes that write nothing themselves and take no name: all but texts and the elements that the
filters admit. -/
def Hollow (f : Filters) (content : Content) : Prop :=
  content.isText = false ∧ (content.isElement = true → f.isEligible content.tag? = false)

section Hollow

variable {o : Options} {content : Content} (h : Hollow o.filters content)
  (parent? : Option String) (inScript : Bool) (id : NodeId) (kids : Forest (NodeId × Content))
  (names : VariableNames)

include h

theorem Hollow.ofNode_eq :
    Yield.ofNode o parent? inScript id content names = .single id [] [] [] names := by
  cases content with
  | text payload => cases h.1
  | element tag attributes =>
    have helig : o.filters.isEligible (some tag) = false := h.2 rfl
    simp [Yield.ofNode, Yield.ofElement, helig]
  | _ => rfl

/-- **Unwrapping.** A hollow node that the walk goes into gives what its children give in its place,
if that makes no difference to which texts are code. -/
theorem convert_unwrap (hdesc : o.filters.descends content = true)
    (hscript : (content.tag? == some .script) = inScript) :
    (kids.convert o parent? inScript names).Agrees
      (convert o parent? inScript (.node (id, content) kids .nil) names) := by
  rw [convert_node_nil, h.ofNode_eq, if_pos hdesc, hscript]
  exact Yield.agrees_single_andThen id names (kids.convert o parent? inScript)

/-- **Pruning.** A hollow node that the walk does not go into gives nothing. -/
theorem convert_prune (hdesc : o.filters.descends content = false) :
    (convert o parent? inScript .nil names).Agrees
      (convert o parent? inScript (.node (id, content) kids .nil) names) := by
  rw [convert_node_nil, h.ofNode_eq, hdesc]
  exact Yield.agrees_single_andThen id names .nothing

end Hollow

end Forest

namespace Document

variable {d : Document}

/-- A visited node that is no text and not bound is hollow. -/
theorem Built.hollow_of_notMem_bound (hd : d.Built) {o : Options} {names : VariableNames}
    {x : NodeId} {content : Content} (hx : d.content? x = some content)
    (htext : content.isText = false)
    (hbound : x ∉ (d.convert o names).bindings.toList.map Prod.fst)
    (hreached : d.Reached o.filters x) : Forest.Hollow o.filters content := by
  refine ⟨htext, fun helement => ?_⟩
  rw [(hd.bound_ids o names).2 x, not_and] at hbound
  cases content with
  | element tag attributes =>
    rw [Content.tag?, ← Bool.not_eq_true, o.filters.isEligible_iff]
    exact fun hadmits => hbound ⟨tag, attributes, hx, hadmits⟩ hreached
  | _ => cases helement

end Document

/-! ## Documents -/

/-- Whatever document has trees of this shape, it gives the text that `d` gives and leaves the
session that `d` leaves. -/
def Session.ConvertsAlike (s : Session) (d : Document) (shape : Forest Content) : Prop :=
  ∀ e : Document, e.Built → e.trees.shape = shape →
    (s.convert e).1.text = (s.convert d).1.text ∧ (s.convert e).2 = (s.convert d).2

/-- It is enough that the recursion over the changed trees gives the same. -/
theorem Session.convertsAlike_of_agrees {s : Session} {d : Document} (hd : d.Built)
    {f : Forest (NodeId × Content)}
    (h : (f.convert s.options none false s.names).Agrees (s.yield d)) :
    s.ConvertsAlike d f.shape := by
  intro e he hshape
  have hsame := Forest.convert_of_shape he.nodup_ids.2 hshape.symm s.options none false s.names
  exact convert_of_agrees hd he (hsame.symm.trans h)

/-- A change at the place of a node that is neither a text nor bound, which goes unseen there. -/
theorem Session.convertsAlike_splice {s : Session} {d : Document} (hd : d.Built) {x : NodeId}
    {content : Content} {r : Forest (NodeId × Content) → Forest (NodeId × Content)}
    (hx : d.content? x = some content) (htext : content.isText = false)
    (hbound : x ∉ (s.convert d).1.bindings.toList.map Prod.fst)
    (hr : Forest.Hollow s.options.filters content → ∀ parent? kids names,
      (Forest.convert s.options parent? (d.inScript x) (r kids) names).Agrees
        (Forest.convert s.options parent? (d.inScript x) (.node (x, content) kids .nil) names)) :
    s.ConvertsAlike d (d.trees.splice x r).shape := by
  refine convertsAlike_of_agrees hd ?_
  have hsplice := Forest.convert_splice (r := r) (x := x) hd (o := s.options) ?_ hd.linked_trees
    (hd.opens_root _) none s.names
  · rwa [hd.scriptBelow_root] at hsplice
  · intro hreached content' kids parent? names hx'
    obtain rfl : content = content' := Option.some.inj (hx.symm.trans hx')
    exact hr (hd.hollow_of_notMem_bound hx htext hbound hreached) parent? kids names

/-- **Unwrapping.** Let `x` be a node that is no text, and let neither it nor its parent be a script
element. If it is not bound, it can be replaced by its children, or, if it is ignored, removed with
all that is below it. In particular comments, doctypes, fragments and elements that are neither
eligible nor ignored can be replaced by their children, wherever they stand. -/
theorem convert_unwrapped {d : Document} (hd : d.Built) (s : Session) {x : NodeId}
    {content : Content} (hx : d.content? x = some content) (htext : content.isText = false)
    (hscript : content.tag? ≠ some .script) (hparent : ¬ d.BelowScript x) :
    let ignored := s.options.filters.isIgnored content.tag?
    let eligible := s.options.filters.isEligible content.tag?
    (x ∉ (s.convert d).1.bindings.toList.map Prod.fst →
      (ignored = false → s.ConvertsAlike d (d.trees.unwrap x).shape) ∧
      (ignored = true → s.ConvertsAlike d (d.trees.prune x).shape)) ∧
    (content.isElement = false ∨ eligible = false ∧ ignored = false →
      s.ConvertsAlike d (d.trees.unwrap x).shape) := by
  intro ignored eligible
  have hinScript : d.inScript x = false := by
    rw [← Bool.not_eq_true, ← d.belowScript_iff x]
    exact hparent
  have hdesc : s.options.filters.descends content = !ignored := by
    cases content with
    | text payload => cases htext
    | _ => rfl
  have hunwrap : x ∉ (s.convert d).1.bindings.toList.map Prod.fst → ignored = false →
      s.ConvertsAlike d (d.trees.unwrap x).shape := by
    intro hbound hignored
    refine Session.convertsAlike_splice hd hx htext hbound fun hollow parent? kids names => ?_
    exact Forest.convert_unwrap hollow parent? _ x kids names (by rw [hdesc, hignored]; rfl)
      (by rw [hinScript]; exact beq_eq_false_iff_ne.mpr hscript)
  refine ⟨fun hbound => ⟨hunwrap hbound, fun hignored => ?_⟩, fun hkind => ?_⟩
  · refine Session.convertsAlike_splice hd hx htext hbound fun hollow parent? kids names => ?_
    exact Forest.convert_prune hollow parent? _ x kids names (by rw [hdesc, hignored]; rfl)
  · have hbound : x ∉ (s.convert d).1.bindings.toList.map Prod.fst := by
      rw [Session.convert, (hd.bound_ids s.options s.names).2 x]
      rintro ⟨⟨tag, attributes, hc, hadmits⟩, -⟩
      obtain rfl : content = .element tag attributes := Option.some.inj (hx.symm.trans hc)
      rcases hkind with helement | ⟨helig, -⟩
      · cases helement
      · have hadmitted := (s.options.filters.isEligible_iff tag).mpr hadmits
        exact Bool.false_ne_true (helig.symm.trans hadmitted)
    refine hunwrap hbound ?_
    rcases hkind with helement | ⟨-, hignored⟩
    · cases content with
      | element tag attributes => cases helement
      | _ => rfl
    · exact hignored

/-- The comment around the emphasis is left out, and so is the head with its title. -/
theorem convert_unwrapped_specimen :
    let s := Session.new .default
    let d := Document.specimen
    let unwrapped := Document.empty.appendAll
      [(0, .element ⟨"div"⟩ [⟨"class", "a  b"⟩]), (1, .element ⟨"em"⟩ []), (2, .text " say \"hi\" "),
        (1, .text "\n"), (0, .fragment), (5, .element .script []), (6, .text "run();"),
        (0, .text "top"), (0, .element .head []), (9, .element ⟨"title"⟩ [])]
    let pruned := Document.empty.appendAll
      [(0, .element ⟨"div"⟩ [⟨"class", "a  b"⟩]), (1, .comment "note"), (2, .element ⟨"em"⟩ []),
        (3, .text " say \"hi\" "), (1, .text "\n"), (0, .fragment), (6, .element .script []),
        (7, .text "run();"), (0, .text "top")]
    10 ∉ (s.convert d).1.bindings.toList.map Prod.fst ∧
      unwrapped.Built ∧ unwrapped.trees.shape = (d.trees.unwrap 2).shape ∧
      (s.convert unwrapped).2 = (s.convert d).2 ∧
      pruned.Built ∧ pruned.trees.shape = (d.trees.prune 10).shape ∧
      (s.convert pruned).2 = (s.convert d).2 := by
  intro s d unwrapped pruned
  have hbound : 10 ∉ (s.convert d).1.bindings.toList.map Prod.fst := by decide +kernel
  have hunwrapped : unwrapped.Built := Document.Built.empty.appendAll (by decide)
  have hpruned : pruned.Built := Document.Built.empty.appendAll (by decide)
  have hcomment : ¬ d.BelowScript 2 := by
    rw [Document.belowScript_iff]
    decide
  have hhead : ¬ d.BelowScript 10 := by
    rw [Document.belowScript_iff]
    decide
  have hshape : unwrapped.trees.shape = (d.trees.unwrap 2).shape := by decide +kernel
  have hshape' : pruned.trees.shape = (d.trees.prune 10).shape := by decide +kernel
  have hnote : d.content? 2 = some (.comment "note") := rfl
  have htitle : d.content? 10 = some (.element .head []) := rfl
  obtain ⟨-, hkind⟩ :=
    convert_unwrapped Document.specimen_built s hnote rfl (by decide) hcomment
  obtain ⟨hany, -⟩ :=
    convert_unwrapped Document.specimen_built s htitle rfl (by decide) hhead
  exact ⟨hbound, hunwrapped, hshape, (hkind (.inl rfl) _ hunwrapped hshape).2, hpruned, hshape',
    ((hany hbound).2 (by decide) _ hpruned hshape').2⟩

/-- A script element takes part although it is not created: without it its text is no code. -/
example :
    let s := Session.new .default
    let d := Document.empty.appendAll [(0, .element .script []), (1, .text "x")]
    let e := Document.empty.appendAll [(0, .text "x")]
    e.trees.shape = (d.trees.unwrap 1).shape ∧
      (s.convert d).1.text = "x\n" ∧ (s.convert e).1.text = "" := by
  decide +kernel

end DomScript
