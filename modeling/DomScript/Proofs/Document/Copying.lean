/-
DomScript.Proofs.Document.Copying — a walk around a tree copies the tree.

`Document.ofEdges` follows the edges of a walk with a stack of the copies of the open nodes. What it
should build is told by the tree alone: `Forest.copied` leaves out the nodes without a copy, whose
children come up into their places, and `Forest.numberFrom` numbers what is left in document order.
The content `document` stands for every kind of node that is not copied.

* `foldl_step_edgesOnto` — the stack does what the plain recursion `copyBelow` does;
* `Represents.copyBelow` — the recursion plants the copied forest below its parent;
* `Built.ofEdges` — whatever the edges are, they give a document that was built;
* `foldl_step_parents` — a part of a walk closes nothing that was open before it;
* `represents_walk` — the document that a walk around a whole tree gives.
-/
import DomScript.Proofs.Document.Tree

namespace DomScript

/-! ## The forest that should come out -/

namespace Forest

section Plant

variable {α : Type} {parent i : NodeId} {a : α} {f g h : Forest (NodeId × α)}

/-- A forest with `trees` behind the last child of its node `parent`. -/
def plant (parent : NodeId) :
    Forest (NodeId × α) → Forest (NodeId × α) → Forest (NodeId × α)
  | nil, _ => nil
  | node (i, a) children siblings, trees =>
    node (i, a) (plant parent children trees ++ if i = parent then trees else nil)
      (plant parent siblings trees)

@[simp] theorem plant_nil (parent : NodeId) (f : Forest (NodeId × α)) : f.plant parent nil = f := by
  induction f with
  | nil => rfl
  | node a kids sibs ihk ihs => simp [plant, ihk, ihs]

theorem plant_append (parent : NodeId) (f g trees : Forest (NodeId × α)) :
    (f ++ g).plant parent trees = f.plant parent trees ++ g.plant parent trees := by
  induction f with
  | nil => rfl
  | node a kids sibs _ ih => simp [plant, ih]

theorem plant_of_notMem (hp : parent ∉ f.ids) : f.plant parent g = f := by
  induction f with
  | nil => rfl
  | node a kids sibs ihk ihs =>
    obtain ⟨i, a⟩ := a
    simp only [ids_node, List.mem_cons, List.mem_append, not_or] at hp
    rw [plant, ihk hp.2.1, ihs hp.2.2, if_neg (Ne.symm hp.1), append_nil]

/-- Planting trees one behind the other. -/
theorem plant_plant (hg : parent ∉ g.ids) :
    (f.plant parent g).plant parent h = f.plant parent (g ++ h) := by
  induction f with
  | nil => rfl
  | node a kids sibs ihk ihs =>
    obtain ⟨i, a⟩ := a
    simp only [plant, plant_append, ihk, ihs, append_assoc]
    split
    · rw [plant_of_notMem hg]
    · rfl

/-- Planting trees below a leaf that was just added. -/
theorem plant_addLeaf (hf : f.ids.Nodup) (hi : i ∉ f.ids) :
    (f.addLeaf parent (i, a)).plant i g = f.plant parent (node (i, a) g nil) := by
  induction f with
  | nil => rfl
  | node b kids sibs ihk ihs =>
    obtain ⟨j, b⟩ := b
    simp only [ids_node, List.mem_cons, List.mem_append, not_or] at hi
    simp only [ids_node, List.nodup_cons, List.nodup_append, List.mem_append, not_or] at hf
    obtain ⟨hij, hik, his⟩ := hi
    simp only [addLeaf]
    split
    · -- the leaf ends the children of the node, so the parent is in no other place
      rename_i hj
      subst hj
      rw [plant, plant_append, plant_of_notMem hik, plant_of_notMem his, if_neg (Ne.symm hij),
        append_nil, plant.eq_def j (node _ _ _)]
      simp only [plant, plant_of_notMem hf.1.1, plant_of_notMem hf.1.2, if_true, nil_append]
    · rename_i hj
      rw [plant, ihk hf.2.1 hik, ihs hf.2.2.1 his, if_neg (Ne.symm hij), plant, if_neg hj]

end Plant

section Edges

variable {α : Type}

theorem edgesOnto_eq (f : Forest α) (rest : List (Edge α)) : f.edgesOnto rest = f.edges ++ rest := by
  rw [edges]
  induction f generalizing rest with
  | nil => rfl
  | node a kids sibs ihk ihs =>
    rw [edgesOnto, ihs, ihk, edgesOnto, ihk (.leave a :: sibs.edgesOnto [])]
    simp

@[simp] theorem edges_nil : edges (nil : Forest α) = [] := rfl

/-- A walk goes around the first tree and then around the others. -/
theorem edges_node (a : α) (kids sibs : Forest α) :
    (node a kids sibs).edges = .enter a :: (kids.edges ++ .leave a :: sibs.edges) := by
  rw [edges, edgesOnto, edgesOnto_eq]
  rfl

end Edges

section Number

variable {α : Type}

/-- The forest with its nodes numbered in document order, from `n` on. -/
def numberFrom (n : NodeId) : Forest α → Forest (NodeId × α)
  | nil => nil
  | node a children siblings =>
    node (n, a) (numberFrom (n + 1) children) (numberFrom (n + 1 + children.labels.length) siblings)

theorem numberFrom_append (n : NodeId) (f g : Forest α) :
    (f ++ g).numberFrom n = f.numberFrom n ++ g.numberFrom (n + f.labels.length) := by
  induction f generalizing n with
  | nil => rfl
  | node a kids sibs _ ih =>
    have hn : n + 1 + kids.labels.length + sibs.labels.length =
        n + (node a kids sibs).labels.length := by
      simp only [labels, List.length_cons, List.length_append]
      lia
    simp only [node_append, numberFrom, ih, hn]

/-- The nodes are numbered as they come. -/
theorem labels_numberFrom (n : NodeId) (f : Forest α) :
    (f.numberFrom n).labels = (f.labels.zipIdx n).map Prod.swap := by
  induction f generalizing n with
  | nil => rfl
  | node a kids sibs ihk ihs =>
    simp only [numberFrom, labels, ihk, ihs, List.zipIdx_cons, List.zipIdx_append, List.map_cons,
      List.map_append, Prod.swap_prod_mk]

theorem ids_numberFrom (n : NodeId) (f : Forest α) :
    (f.numberFrom n).ids = List.range' n f.labels.length := by
  have hfst : Prod.fst ∘ Prod.swap = (Prod.snd : α × NodeId → NodeId) := rfl
  rw [ids, labels_numberFrom, List.map_map, hfst, List.zipIdx_map_snd]

end Number

/-- The forest without the nodes that are not copied: their children stand in their places. -/
def copied : Forest Content → Forest Content
  | nil => nil
  | node content children siblings =>
    if content = .document then children.copied ++ siblings.copied
    else node content children.copied siblings.copied

/-- Every copied node is there once, in its order, and no other one. -/
theorem labels_copied (f : Forest Content) : f.copied.labels = f.labels.filter (· ≠ .document) := by
  induction f with
  | nil => rfl
  | node content kids sibs ihk ihs =>
    simp only [copied, labels, List.filter_cons, List.filter_append]
    split
    · rename_i hc
      simp [hc, ihk, ihs]
    · rename_i hc
      simp [hc, labels, ihk, ihs]

end Forest

namespace Document

open Copying

/-! ## The walk as a recursion -/

/-- Copy a forest below `parent`, one tree after the other. -/
def copyBelow (d : Document) (parent : NodeId) : Forest Content → Document
  | .nil => d
  | .node content children siblings =>
    let (d, id) := place d parent content
    copyBelow (copyBelow d id children) parent siblings

theorem place_of_ne (d : Document) (parent : NodeId) {content : Content}
    (hc : content ≠ .document) : place d parent content = (d.append parent content, d.size) := by
  cases content with
  | document => exact absurd rfl hc
  | _ => rfl

/-- **The stack does what the recursion does**: after the edges of a forest the nodes that were open
before are open again, and the forest is copied below the innermost of them. -/
theorem foldl_step_edgesOnto (f : Forest Content) (rest : List (Edge Content)) (d : Document)
    (parent : NodeId) (outer : List NodeId) :
    (f.edgesOnto rest).foldl step ⟨d, parent :: outer⟩ =
      rest.foldl step ⟨d.copyBelow parent f, parent :: outer⟩ := by
  induction f generalizing rest d parent outer with
  | nil => rfl
  | node content kids sibs ihk ihs =>
    simp only [Forest.edgesOnto, List.foldl_cons]
    -- the node is opened, its children are copied below its copy, and it is closed
    have henter : step ⟨d, parent :: outer⟩ (.enter content) =
        ⟨(place d parent content).1, (place d parent content).2 :: parent :: outer⟩ := rfl
    have hleave : ∀ e id, step ⟨e, id :: parent :: outer⟩ (.leave content) =
        ⟨e, parent :: outer⟩ := fun e id => rfl
    rw [henter, ihk, List.foldl_cons, hleave, ihs]
    rfl

/-! ## What the recursion builds -/

variable {d : Document} {F : Forest (NodeId × Content)} {parent : NodeId}

theorem Represents.notMem_size (h : Represents d F) : d.size ∉ F.ids := by
  intro hmem
  exact Nat.lt_irrefl _ ((h.mem_ids d.size).mp hmem)

/-- Every number from the size on is still free. -/
theorem notMem_numberFrom (f : Forest Content) {n : NodeId} (hp : parent < n) :
    parent ∉ (f.numberFrom n).ids := by
  rw [Forest.ids_numberFrom, List.mem_range'_1]
  lia

/-- **The recursion plants the copied forest** behind the last child of its parent, with the numbers
from the size on. -/
theorem Represents.copyBelow (h : Represents d F) (hp : parent < d.size) (f : Forest Content) :
    Represents (d.copyBelow parent f) (F.plant parent (f.copied.numberFrom d.size)) ∧
      (d.copyBelow parent f).size = d.size + f.copied.labels.length := by
  induction f generalizing d F parent with
  | nil => exact ⟨by rwa [Forest.copied, Forest.numberFrom, Forest.plant_nil], rfl⟩
  | node content kids sibs ihk ihs =>
    simp only [Document.copyBelow, Forest.copied]
    split
    · -- no copy: children and siblings follow each other below the same parent
      rename_i hc
      subst hc
      obtain ⟨hkids, hsize⟩ := ihk h hp
      have hp' : parent < (d.copyBelow parent kids).size := by lia
      obtain ⟨hsibs, hsize'⟩ := ihs hkids hp'
      rw [Forest.plant_plant (notMem_numberFrom _ hp), hsize, ← Forest.numberFrom_append] at hsibs
      refine ⟨hsibs, ?_⟩
      rw [Forest.labels_append, List.length_append, ← Nat.add_assoc, ← hsize]
      exact hsize'
    · -- a copy: a leaf is added, the children are planted below it, and the siblings behind it
      rename_i hc
      rw [place_of_ne d parent hc]
      have hadded : Represents (d.append parent content) _ := h.append hp
      have hsize₀ := size_append content hp
      have hnew : d.size < (d.append parent content).size := by lia
      obtain ⟨hkids, hsize⟩ := ihk hadded hnew
      have hp' : parent < ((d.append parent content).copyBelow d.size kids).size := by lia
      obtain ⟨hsibs, hsize'⟩ := ihs hkids hp'
      have hparent : parent ∉ Forest.ids (.node (d.size, content)
          (kids.copied.numberFrom (d.append parent content).size) .nil) := by
        rw [Forest.ids_node, Forest.ids_nil, List.append_nil, List.mem_cons, not_or]
        exact ⟨Nat.ne_of_lt hp, notMem_numberFrom _ (by lia)⟩
      rw [Forest.plant_addLeaf h.nodup h.notMem_size, Forest.plant_plant hparent, hsize, hsize₀,
        Forest.node_append, Forest.nil_append] at hsibs
      refine ⟨hsibs, ?_⟩
      simp only [Forest.labels, List.length_cons, List.length_append]
      show (((d.append parent content).copyBelow d.size kids).copyBelow parent sibs).size = _
      lia

/-! ## Any edges -/

/-- The document was built, and the copies of the open nodes are in it. -/
structure Copying.Sound (c : Copying) : Prop where
  built : c.document.Built
  parents : ∀ id ∈ c.parents, id < c.document.size

theorem Copying.Sound.step {c : Copying} (h : c.Sound) (e : Edge Content) : (c.step e).Sound := by
  obtain ⟨d, parents⟩ := c
  cases e with
  | leave content => exact ⟨h.built, fun id hid => h.parents id (List.mem_of_mem_drop hid)⟩
  | enter content =>
    cases parents with
    | nil =>
      have hroot : root < d.size := (h.built.represents.mem_ids root).mp (by
        obtain ⟨kids, htop⟩ := h.built.represents.top
        simp [htop])
      exact ⟨h.built, by simpa [Copying.step] using hroot⟩
    | cons parent outer =>
      by_cases hc : content = .document
      · subst hc
        exact ⟨h.built, List.forall_mem_cons.mpr ⟨h.parents parent List.mem_cons_self, h.parents⟩⟩
      · have hp : parent < d.size := h.parents parent List.mem_cons_self
        have hstep : Copying.step ⟨d, parent :: outer⟩ (.enter content) =
            ⟨d.append parent content, d.size :: parent :: outer⟩ := by
          simp only [Copying.step, place_of_ne d parent hc]
        have hsize := size_append content hp
        rw [hstep]
        refine ⟨h.built.append hp hc, List.forall_mem_cons.mpr ⟨?_, fun id hid => ?_⟩⟩
        · show d.size < (d.append parent content).size
          lia
        · have hid' : id < d.size := h.parents id hid
          show id < (d.append parent content).size
          lia

/-- **Whatever the edges are**, they give a document that was built. -/
theorem Built.ofEdges (edges : List (Edge Content)) : (ofEdges edges).Built := by
  suffices h : ∀ c : Copying, c.Sound → (edges.foldl Copying.step c).Sound by
    exact (h .start ⟨.empty, by simp [Copying.start]⟩).built
  intro c hc
  induction edges generalizing c with
  | nil => exact hc
  | cons e edges ih => exact ih _ (hc.step e)

/-! ## The open nodes -/

/-- **A part of a walk** around a forest closes nothing that was open before it. -/
theorem foldl_step_parents {f : Forest Content} {before after : List (Edge Content)}
    (h : f.edges = before ++ after) (d : Document) (parent : NodeId) (outer : List NodeId) :
    ∃ inner, (before.foldl step ⟨d, parent :: outer⟩).parents = inner ++ parent :: outer := by
  induction f generalizing before after d parent outer with
  | nil =>
    obtain ⟨rfl, -⟩ := List.append_eq_nil_iff.mp h.symm
    exact ⟨[], rfl⟩
  | node content kids sibs ihk ihs =>
    rw [Forest.edges_node] at h
    cases before with
    | nil => exact ⟨[], rfl⟩
    | cons e before =>
      obtain ⟨rfl, hsplit⟩ := List.cons.inj h
      rw [List.foldl_cons]
      have henter : step ⟨d, parent :: outer⟩ (.enter content) =
          ⟨(place d parent content).1, (place d parent content).2 :: parent :: outer⟩ := rfl
      rw [henter]
      rcases List.append_eq_append_iff.mp hsplit with ⟨part, rfl, hrest⟩ | ⟨part, hkids, hrest⟩
      · -- the children are behind it
        rw [List.foldl_append, ← List.append_nil kids.edges, ← Forest.edgesOnto_eq,
          foldl_step_edgesOnto, List.foldl_nil]
        cases part with
        | nil => exact ⟨[(place d parent content).2], rfl⟩
        | cons e part =>
          obtain ⟨rfl, hsibs⟩ := List.cons.inj hrest
          exact ihs hsibs _ parent outer
      · -- it ends among the children
        obtain ⟨inner, hinner⟩ := ihk hkids (place d parent content).1 (place d parent content).2
          (parent :: outer)
        exact ⟨inner ++ [(place d parent content).2], by rw [hinner]; simp⟩

/-- **The stack is empty only before the first edge and after the last one** of a walk around one
tree. -/
theorem foldl_step_start_parents {content : Content} {kids : Forest Content}
    {before after : List (Edge Content)} (h : (Forest.node content kids .nil).edges = before ++ after) :
    (before.foldl step .start).parents = [] ↔ before = [] ∨ after = [] := by
  rw [Forest.edges_node, Forest.edges_nil] at h
  cases before with
  | nil => simp [Copying.start]
  | cons e before =>
    obtain ⟨rfl, hsplit⟩ := List.cons.inj h
    have henter : step .start (.enter content) = ⟨.empty, [root]⟩ := rfl
    rw [List.foldl_cons, henter]
    simp only [reduceCtorEq, false_or]
    rcases List.append_eq_append_iff.mp hsplit with ⟨part, rfl, hrest⟩ | ⟨part, hkids, rfl⟩
    · rw [List.foldl_append, ← List.append_nil kids.edges, ← Forest.edgesOnto_eq,
        foldl_step_edgesOnto, List.foldl_nil]
      cases part with
      | nil =>
        obtain rfl : [.leave content] = after := hrest
        simp
      | cons e part =>
        obtain ⟨rfl, hnone⟩ := List.cons.inj hrest
        obtain ⟨rfl, rfl⟩ := List.append_eq_nil_iff.mp hnone.symm
        simp [step]
    · obtain ⟨inner, hinner⟩ := foldl_step_parents hkids .empty root []
      rw [hinner]
      simp

/-! ## The document of a walk -/

/-- Only the outermost nodes have no parent. -/
theorem Linked.exists_parent {f : Forest (NodeId × Content)} {above : NodeId}
    (h : d.Linked (some above) f) {id : NodeId} (hid : id ∈ f.ids) :
    ∃ p, d.parent? id = some p := by
  induction f generalizing above with
  | nil => simp at hid
  | node a kids sibs ihk ihs =>
    obtain ⟨i, content⟩ := a
    obtain ⟨hn, hk, hs⟩ := h
    simp only [Forest.ids_node, List.mem_cons, List.mem_append] at hid
    rcases hid with rfl | hid | hid
    · exact ⟨above, by rw [parent?, hn, Option.bind_some]⟩
    · exact ihk hk hid
    · exact ihs hs hid

/-- What the nodes of a copy hold, in the order of their numbers. -/
theorem Represents.content?_succ {kids : Forest Content}
    (h : d.Represents (.node (root, .document) (kids.numberFrom 1) .nil)) (k : Nat) :
    d.content? (k + 1) = kids.labels[k]? := by
  have hsize : kids.labels.length + 1 = d.size := by
    simpa [Forest.labels, Forest.labels_numberFrom] using h.length_labels
  by_cases hk : k < kids.labels.length
  · rw [List.getElem?_eq_getElem hk]
    refine h.linked.2.1.content?_eq (a := (k + 1, kids.labels[k])) ?_
    rw [Forest.labels_numberFrom, List.mem_map]
    refine ⟨(kids.labels[k], k + 1), ?_, rfl⟩
    rw [List.mem_iff_getElem?]
    exact ⟨k, by simp [hk, Nat.add_comm]⟩
  · rw [List.getElem?_eq_none (Nat.le_of_not_lt hk), content?, Option.map_eq_none_iff]
    exact Array.getElem?_eq_none (show d.size ≤ k + 1 by omega)

/-- **A walk around a tree copies the tree.** The document that the edges give was built, and its
links are those of one forest: the document node stands for the outermost node, whatever that is,
and below it stands everything else that is copied, each node below its nearest copied ancestor and
in the old order. Its numbers are those of document order, so the node `k + 1` holds what the `k`-th
copied node holds, tag, attributes and payload included. Every node but the document node has a
parent, for some node is open at every moment between the first edge and the last one. -/
theorem represents_walk (outermost : Content) (kids : Forest Content) :
    let walk := (Forest.node outermost kids .nil).edges
    let d := ofEdges walk
    d.Built ∧
      d.Represents (.node (root, .document) (kids.copied.numberFrom 1) .nil) ∧
      (∀ k, d.content? (k + 1) = (kids.labels.filter (· ≠ .document))[k]?) ∧
      (∀ id < d.size, d.parent? id = none ↔ id = root) ∧
      ∀ before after, walk = before ++ after →
        ((before.foldl step .start).parents = [] ↔ before = [] ∨ after = []) := by
  intro walk d
  have hd : d = Document.empty.copyBelow root kids := by
    show (walk.foldl step .start).document = _
    rw [show walk = Edge.enter outermost :: (kids.edges ++ [.leave outermost]) from
      Forest.edges_node ..]
    have henter : step .start (.enter outermost) = ⟨.empty, [root]⟩ := rfl
    rw [List.foldl_cons, henter, ← Forest.edgesOnto_eq, foldl_step_edgesOnto]
    rfl
  have hforest : d.Represents (.node (root, .document) (kids.copied.numberFrom 1) .nil) := by
    have hroot : root < Document.empty.size := by decide
    have h := (Represents.empty.copyBelow hroot kids).1
    rw [← hd] at h
    have hone : Document.empty.size = 1 := rfl
    simpa [Forest.plant, hone] using h
  refine ⟨.ofEdges walk, hforest, fun k => ?_, fun id hid => ⟨fun hnone => ?_, ?_⟩,
    fun before after h => foldl_step_start_parents h⟩
  · rw [hforest.content?_succ, Forest.labels_copied]
  · have hmem := (hforest.mem_ids id).mpr hid
    rw [Forest.ids_node, Forest.ids_nil, List.append_nil, List.mem_cons] at hmem
    refine hmem.resolve_right fun hbelow => ?_
    obtain ⟨p, hp⟩ := hforest.linked.2.1.exists_parent hbelow
    exact absurd (hnone.symm.trans hp) (Option.some_ne_none p).symm
  · rintro rfl
    rw [parent?, hforest.linked.1]
    rfl

/-- A list with a comment between its items, inside a node that is not copied: the list and what is
behind it go to the paragraph, in their places. -/
theorem represents_walk_specimen :
    let item := Content.element ⟨"li"⟩ []
    let list := Content.element ⟨"ul"⟩ [⟨"class", "x"⟩]
    let kids : Forest Content :=
      .node (.element ⟨"p"⟩ []) (.node (.text "a") .nil
        (.node .document (.node list (.node item .nil (.node (.comment "c") .nil .nil)) .nil)
          (.node (.text "b") .nil .nil))) .nil
    let walk := (Forest.node .fragment kids .nil).edges
    let d := ofEdges walk
    d.children 1 = [2, 3, 6] ∧ d.children 3 = [4, 5] ∧ d.content? 3 = some list ∧
      d.parent? 6 = some 1 ∧
      ((walk.take 7).foldl step .start).parents = [4, 3, 1, 1, 0] ∧
      ((walk.take 7).foldl step .start).parents ≠ [] := by
  intro item list kids walk d
  obtain ⟨-, -, hcontent, -, hopen⟩ := represents_walk .fragment kids
  refine ⟨by decide, by decide, ?_, by decide, by decide, ?_⟩
  · exact (hcontent 2).trans (by decide)
  · rw [Ne, hopen (walk.take 7) (walk.drop 7) (List.take_append_drop 7 walk).symm]
    decide

end Document

end DomScript
