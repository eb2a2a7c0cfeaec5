/-
DomScript.Proofs.Conversion.Skipped — what the walk does not go into may grow unseen.

Texts and ignored elements are not walked into. Appending a node below one of them, however deep,
changes links of nodes that are there already: the parent gets a child, or its last child a sibling.
None of these links is ever followed, whatever the new node holds, so the conversion is the one
before. Only the number of nodes in the last report tells.

* `Built.trees_append` — a new node below another node than the document node is a leaf of the
  trees;
* `Forest.convert_addLeaf` — the recursion does not see a leaf in a skipped region;
* `convert_grown` — nor does a conversion in a session see any number of them.
-/
import DomScript.Proofs.Conversion.Reach

namespace DomScript

/-! ## Skipped regions -/

/-- What a walk does not go into: texts and ignored elements. -/
def Filters.Skips (f : Filters) (content : Content) : Prop :=
  (∃ payload, content = .text payload) ∨
    ∃ tag attributes, content = .element tag attributes ∧ tag ∈ f.ignores.tags

theorem Filters.Skips.not_opens {f : Filters} {content : Content} (h : f.Skips content) :
    ¬ f.Opens content := by
  rintro ⟨htext, hignored⟩
  rcases h with ⟨payload, hc⟩ | ⟨tag, attributes, hc, hmem⟩
  · exact htext payload hc
  · exact hignored tag attributes hc hmem

namespace Document

/-- The node is a text or an ignored element, or below one. -/
def Skipped (d : Document) (f : Filters) (id : NodeId) : Prop :=
  ∃ a ∈ id :: d.ancestors id, ∃ content, d.content? a = some content ∧ f.Skips content

/-- The documents that `d` becomes when nodes are appended to it one by one, each below a node that
is skipped at that moment. -/
inductive Grows (f : Filters) (d : Document) : Document → Prop
  | refl : Grows f d d
  | append {e : Document} {parent : NodeId} {content : Content} :
    Grows f d e → parent < e.size → content ≠ .document → e.Skipped f parent →
    Grows f d (e.append parent content)

variable {d e : Document} {f : Filters}

theorem Grows.built (h : d.Grows f e) (hd : d.Built) : e.Built := by
  induction h with
  | refl => exact hd
  | append _ hparent hcontent _ ih => exact ih.append hparent hcontent

/-- The document node is not skipped. -/
theorem Built.root_not_skipped (hd : d.Built) : ¬ d.Skipped f root := by
  rintro ⟨a, ha, content, hc, hskips⟩
  exact hskips.not_opens (hd.opens_root f a ha content hc)

/-- A new node below another node than the document node is a leaf of the trees. -/
theorem Built.trees_append (hd : d.Built) {parent : NodeId} {content : Content}
    (hparent : parent < d.size) (hroot : parent ≠ root) :
    (d.append parent content).trees = d.trees.addLeaf parent (d.size, content) := by
  have hforest : (d.append parent content).forest = _ :=
    (hd.represents.append hparent).forest_eq
  rw [hd.forest_eq, Forest.addLeaf, if_neg (Ne.symm hroot)] at hforest
  rw [trees, hforest]

end Document

/-! ## Leaves in skipped regions -/

/-- **A leaf in a skipped region.** The recursion gives the same with it, if it comes to the forest
at all. -/
theorem Forest.convert_addLeaf {d : Document} (hd : d.Built) {o : Options} {parent : NodeId}
    (hskipped : d.Skipped o.filters parent) (leaf : NodeId × Content)
    {f : Forest (NodeId × Content)} {above : Option NodeId} (h : d.Linked above f)
    (hopen : ∀ a ∈ d.upFrom above, ∀ content, d.content? a = some content →
      o.filters.Opens content) (parent? : Option String) (inScript : Bool)
    (names : VariableNames) :
    (f.addLeaf parent leaf).convert o parent? inScript names =
      f.convert o parent? inScript names := by
  induction f generalizing above parent? inScript names with
  | nil => rfl
  | node a kids sibs ihk ihs =>
    obtain ⟨id, content⟩ := a
    obtain ⟨hn, hk, hs⟩ := h
    simp only [addLeaf]
    split
    · -- the leaf ends the children of the node, and the walk does not go into these
      rename_i hid
      subst hid
      have hdesc : o.filters.descends content = false := by
        rw [← Bool.not_eq_true]
        intro hdesc
        obtain ⟨a, ha, c, hc, hskips⟩ := hskipped
        exact hskips.not_opens (hd.opens_below hn hdesc hopen a ha c hc)
      simp only [convert, hdesc]
      rfl
    · -- the leaf is below the node or behind it, or the walk does not come so far
      rw [convert_node, convert_node_nil, convert_node o parent? inScript _ kids,
        convert_node_nil]
      congr 1
      · congr 1
        split
        · rename_i hdesc
          exact funext fun names => ihk hk (hd.opens_below hn hdesc hopen) _ _ names
        · rfl
      · exact funext fun names => ihs hs hopen parent? inScript names

/-! ## Documents -/

/-- One step: a document with one more node in a skipped region. -/
theorem Document.Built.convert_trees_append {d : Document} (hd : d.Built) {o : Options}
    {parent : NodeId} {content : Content} (hparent : parent < d.size)
    (hskipped : d.Skipped o.filters parent) (names : VariableNames) :
    (d.append parent content).trees.convert o none false names =
      d.trees.convert o none false names := by
  have hroot : parent ≠ root := by
    rintro rfl
    exact hd.root_not_skipped hskipped
  rw [hd.trees_append hparent hroot]
  exact Forest.convert_addLeaf hd hskipped _ hd.linked_trees (hd.opens_root _) none false names

/-- All steps: what a document yields in a session stays while it grows where it is skipped. -/
theorem Session.yield_grown {s : Session} {d e : Document} (hd : d.Built)
    (h : d.Grows s.options.filters e) : s.yield e = s.yield d := by
  induction h with
  | refl => rfl
  | append hgrows hparent _ hskipped ih =>
    rw [← ih]
    exact (hgrows.built hd).convert_trees_append hparent hskipped s.names

/-- **Skipped regions do not interfere.** Let `e` be `d` with any nodes appended below texts and
ignored elements. In every session the two are converted alike: the text, the bindings, the names,
the session afterwards and the reports are the same, but for the number of nodes in the last
report. -/
theorem convert_grown {d e : Document} (hd : d.Built) (s : Session)
    (h : d.Grows s.options.filters e) :
    let before := (s.convert d).1
    let after := (s.convert e).1
    after.text = before.text ∧ after.bindings = before.bindings ∧ after.names = before.names ∧
      (s.convert e).2 = (s.convert d).2 ∧
      ∃ reports elements bytes,
        before.events = reports ++ [.converted d.size elements bytes] ∧
        after.events = reports ++ [.converted e.size elements bytes] := by
  intro before after
  have he : e.Built := h.built hd
  have hyield : s.yield e = s.yield d := s.yield_grown hd h
  have htrees : e.trees.convert s.options none false s.names =
      d.trees.convert s.options none false s.names := hyield
  refine ⟨?_, ?_, ?_, ?_, (s.yield d).events, (s.yield d).bindings.length,
    (renderScript (s.yield d).script).utf8ByteSize, s.convert_events hd, ?_⟩
  · show renderScript after.script = renderScript before.script
    rw [s.convert_script he, s.convert_script hd, hyield]
  · show (e.convert s.options s.names).bindings = (d.convert s.options s.names).bindings
    rw [he.convert_eq, hd.convert_eq, Document.convertByTree, Document.convertByTree, htrees]
  · show (e.convert s.options s.names).names = (d.convert s.options s.names).names
    rw [he.convert_eq, hd.convert_eq, Document.convertByTree, Document.convertByTree, htrees]
  · rw [s.convert_session he, s.convert_session hd, hyield]
  · rw [s.convert_events he, hyield]

/-- Into the ignored head goes a script with its code, and below a text an element. -/
theorem convert_grown_specimen :
    let s := Session.new .default
    let d := Document.specimen
    let e₁ := d.append 11 (.element .script [])
    let e₂ := e₁.append 12 (.text "run();")
    let e₃ := e₂.append 4 (.element ⟨"div"⟩ [])
    d.Built ∧ d.Grows s.options.filters e₃ ∧ e₃.size = d.size + 3 ∧
      (s.convert e₃).2 = (s.convert d).2 := by
  intro s d e₁ e₂ e₃
  have hhead : d.Skipped s.options.filters 11 :=
    ⟨10, by decide, .element .head [], rfl, .inr ⟨.head, [], rfl, by decide⟩⟩
  have hscript : e₁.Skipped s.options.filters 12 :=
    ⟨10, by decide, .element .head [], rfl, .inr ⟨.head, [], rfl, by decide⟩⟩
  have hcontent : e₂.content? 4 = some (.text " say \"hi\" ") := by decide
  have htext : e₂.Skipped s.options.filters 4 :=
    ⟨4, List.mem_cons_self, _, hcontent, .inl ⟨_, rfl⟩⟩
  have hgrows₁ : d.Grows s.options.filters e₁ := .append .refl (by decide) (by simp) hhead
  have hgrows₂ : d.Grows s.options.filters e₂ := .append hgrows₁ (by decide) (by simp) hscript
  have hgrows₃ : d.Grows s.options.filters e₃ := .append hgrows₂ (by decide) (by simp) htext
  exact ⟨Document.specimen_built, hgrows₃, by decide,
    (convert_grown Document.specimen_built s hgrows₃).2.2.2.1⟩

end DomScript
