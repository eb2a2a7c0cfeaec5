/-
DomScript.Proofs.Document.Tree — the links of a document describe a tree.

`Built` holds of the documents that appending nodes can give. `Linked d parent f` says that the
links of `d` spell the forest `f` below `parent`, and `Represents d f` that `f` is all of `d`: its
root is the document node and every node stands in it once. Appending is adding a leaf:

* `Represents.append` — a new node becomes the last child of its parent, and nothing else moves;
* `Represents.forest_eq` — `Document.forest` reads back the forest that the links describe;
* `Built.represents` — every document that was built represents its forest;
* `Built.appendAll` — appending nodes in order builds a document;
* `Built.links_lt` — every link of a document that was built leads to a node of it;
* `ancestors_cons` — the ancestors of a node are its parent and the ancestors of its parent.
-/
import DomScript.Document.Copy

namespace DomScript

/-! ## Forests of numbered nodes -/

namespace Forest

variable {α : Type}

/-- A forest with another one behind it. -/
def append : Forest α → Forest α → Forest α
  | nil, g => g
  | node label children siblings, g => node label children (append siblings g)

instance : Append (Forest α) := ⟨append⟩

@[simp] theorem nil_append (g : Forest α) : (nil : Forest α) ++ g = g := rfl

@[simp] theorem node_append (a : α) (kids sibs g : Forest α) :
    node a kids sibs ++ g = node a kids (sibs ++ g) := rfl

@[simp] theorem append_nil (f : Forest α) : f ++ nil = f := by
  induction f with
  | nil => rfl
  | node a kids sibs _ ih => rw [node_append, ih]

theorem append_assoc (f g h : Forest α) : f ++ g ++ h = f ++ (g ++ h) := by
  induction f with
  | nil => rfl
  | node a kids sibs _ ih => simp only [node_append, ih]

@[simp] theorem labels_append (f g : Forest α) : (f ++ g).labels = f.labels ++ g.labels := by
  induction f with
  | nil => rfl
  | node a kids sibs _ ih => simp [labels, ih]

theorem map_append {β : Type} (h : α → β) (f g : Forest α) :
    (f ++ g).map h = f.map h ++ g.map h := by
  induction f with
  | nil => rfl
  | node a kids sibs _ ih => simp only [node_append, map, ih]

/-- The numbers of the nodes, in document order. -/
def ids (f : Forest (NodeId × α)) : List NodeId :=
  f.labels.map Prod.fst

@[simp] theorem ids_nil : ids (nil : Forest (NodeId × α)) = [] := rfl

@[simp] theorem ids_node (id : NodeId) (a : α) (kids sibs : Forest (NodeId × α)) :
    ids (node (id, a) kids sibs) = id :: (ids kids ++ ids sibs) := by
  simp [ids, labels]

/-- The first root. -/
def firstId? : Forest (NodeId × α) → Option NodeId
  | nil => none
  | node (id, _) _ _ => some id

/-- The last root. -/
def lastId? : Forest (NodeId × α) → Option NodeId
  | nil => none
  | node (id, _) _ siblings => (lastId? siblings).or (some id)

@[simp] theorem firstId?_nil : firstId? (nil : Forest (NodeId × α)) = none := rfl

@[simp] theorem firstId?_node (id : NodeId) (a : α) (kids sibs : Forest (NodeId × α)) :
    firstId? (node (id, a) kids sibs) = some id := rfl

/-- A leaf behind the last child of the node `parent`. -/
def addLeaf (parent : NodeId) (leaf : NodeId × α) : Forest (NodeId × α) → Forest (NodeId × α)
  | nil => nil
  | node (id, a) children siblings =>
    if id = parent then node (id, a) (children ++ node leaf nil nil) siblings
    else node (id, a) (addLeaf parent leaf children) (addLeaf parent leaf siblings)

@[simp] theorem firstId?_append_leaf (f : Forest (NodeId × α)) (leaf : NodeId × α) :
    (f ++ node leaf nil nil).firstId? = f.firstId?.or (some leaf.1) := by
  cases f with
  | nil => rfl
  | node a kids sibs => rfl

@[simp] theorem lastId?_append_leaf (f : Forest (NodeId × α)) (leaf : NodeId × α) :
    (f ++ node leaf nil nil).lastId? = some leaf.1 := by
  induction f with
  | nil => rfl
  | node a kids sibs _ ih => simp [lastId?, ih]

@[simp] theorem firstId?_addLeaf (parent : NodeId) (leaf : NodeId × α)
    (f : Forest (NodeId × α)) : (f.addLeaf parent leaf).firstId? = f.firstId? := by
  cases f with
  | nil => rfl
  | node a kids sibs => simp only [addLeaf]; split <;> rfl

@[simp] theorem lastId?_addLeaf (parent : NodeId) (leaf : NodeId × α)
    (f : Forest (NodeId × α)) : (f.addLeaf parent leaf).lastId? = f.lastId? := by
  induction f with
  | nil => rfl
  | node a kids sibs _ ih => simp only [addLeaf]; split <;> simp [lastId?, ih]

theorem lastId?_node_node (a b : NodeId × α) (kids kids' sibs : Forest (NodeId × α)) :
    (node a kids (node b kids' sibs)).lastId? = (node b kids' sibs).lastId? := by
  simp only [lastId?]
  cases sibs.lastId? <;> rfl

theorem lastId?_mem {f : Forest (NodeId × α)} {id : NodeId} (h : f.lastId? = some id) :
    id ∈ f.ids := by
  induction f with
  | nil => simp [lastId?] at h
  | node a kids sibs _ ih =>
    obtain ⟨i, a⟩ := a
    cases sibs with
    | nil => simp [lastId?] at h; simp [h]
    | node b kids' sibs =>
      rw [lastId?_node_node] at h
      simp only [ids_node, List.mem_cons, List.mem_append]
      exact .inr (.inr (ih h))

theorem firstId?_mem {f : Forest (NodeId × α)} {id : NodeId} (h : f.firstId? = some id) :
    id ∈ f.ids := by
  cases f with
  | nil => cases h
  | node a kids sibs =>
    obtain ⟨i, a⟩ := a
    obtain rfl : i = id := Option.some.inj h
    simp

/-- Without its parent there is no place for a leaf. -/
theorem addLeaf_of_notMem {parent : NodeId} {leaf : NodeId × α} {f : Forest (NodeId × α)}
    (h : parent ∉ f.ids) : f.addLeaf parent leaf = f := by
  induction f with
  | nil => rfl
  | node a kids sibs ihk ihs =>
    obtain ⟨i, a⟩ := a
    simp only [ids_node, List.mem_cons, List.mem_append, not_or] at h
    rw [addLeaf, if_neg (Ne.symm h.1), ihk h.2.1, ihs h.2.2]

/-- Adding a leaf adds its label and keeps the others. -/
theorem labels_addLeaf {parent : NodeId} {leaf : NodeId × α} {f : Forest (NodeId × α)}
    (hf : f.ids.Nodup) (hp : parent ∈ f.ids) :
    (f.addLeaf parent leaf).labels.Perm (leaf :: f.labels) := by
  induction f with
  | nil => simp at hp
  | node a kids sibs ihk ihs =>
    obtain ⟨i, a⟩ := a
    simp only [ids_node, List.nodup_cons, List.nodup_append, List.mem_append, not_or] at hf
    obtain ⟨-, hk, hs, hks⟩ := hf
    simp only [addLeaf]
    split
    · -- the node itself is the parent
      simp only [labels, labels_append, List.append_assoc, List.cons_append, List.nil_append]
      exact (List.perm_middle.cons _).trans (.swap ..)
    · rename_i hne
      simp only [ids_node, List.mem_cons, Ne.symm hne, List.mem_append, false_or] at hp
      simp only [labels]
      rcases hp with hp | hp
      · have hps : parent ∉ sibs.ids := fun h => hks _ hp _ h rfl
        rw [addLeaf_of_notMem hps]
        exact (((ihk hk hp).append_right _).cons _).trans (.swap ..)
      · have hpk : parent ∉ kids.ids := fun h => hks _ h _ hp rfl
        rw [addLeaf_of_notMem hpk]
        exact ((((ihs hs hp).append_left _).trans List.perm_middle).cons _).trans (.swap ..)

end Forest

namespace Document

/-! ## Documents that were built -/

/-- The documents that appending gives: a new node is not a document node, and its parent is
already there. -/
inductive Built : Document → Prop
  | empty : Built .empty
  | append {d : Document} {parent : NodeId} {content : Content} :
    Built d → parent < d.size → content ≠ .document → Built (d.append parent content)

/-- A document that holds an element with an element below a comment, text in both and at the top,
a fragment with a script, and an element that is not walked into. -/
def specimen : Document :=
  [(0, .element ⟨"div"⟩ [⟨"class", "a  b"⟩]), (1, .comment "note"), (2, .element ⟨"em"⟩ []),
    (3, .text " say \"hi\" "), (1, .text "\n"), (0, .fragment), (6, .element .script []),
    (7, .text "run();"), (0, .text "top"), (0, .element .head []),
    (10, .element ⟨"title"⟩ [])].foldl (fun d (parent, content) => d.append parent content) .empty

theorem specimen_built : specimen.Built := by
  unfold specimen
  simp only [List.foldl_cons, List.foldl_nil]
  repeat' first | exact .empty | refine .append ?_ (by decide) (by decide)

theorem node?_isSome {d : Document} {id : NodeId} (h : id < d.size) :
    ∃ n, d.node? id = some n :=
  ⟨d.nodes[id], Array.getElem?_eq_getElem h⟩

theorem lt_size_of_node? {d : Document} {id : NodeId} {n : Node} (h : d.node? id = some n) :
    id < d.size :=
  (Array.getElem?_eq_some_iff.mp h).1

theorem content?_of_node? {d : Document} {id : NodeId} {n : Node} (h : d.node? id = some n) :
    d.content? id = some n.content := by
  rw [content?, h]
  rfl

/-- Append nodes in order, each below the parent that it comes with. -/
def appendAll (d : Document) (steps : List (NodeId × Content)) : Document :=
  steps.foldl (fun d (parent, content) => d.append parent content) d

/-! ### What appending does to each node -/

section Append

variable {d : Document} {parent : NodeId} {p : Node} (content : Content)

theorem size_append (h : parent < d.size) : (d.append parent content).size = d.size + 1 := by
  obtain ⟨p, hp⟩ := node?_isSome h
  unfold append
  simp only [node?] at hp
  simp only [hp]
  cases p.lastChild <;> simp [size]

/-- Every node after appending: the new one at the end, the parent with its links to the new one,
the last child with its new sibling, and all others as they were. -/
theorem node?_append (hp : d.node? parent = some p) (id : NodeId) :
    (d.append parent content).node? id =
      if id = d.size then some { content, parent := some parent }
      else (d.node? id).map fun n =>
        let n := if p.lastChild = some id then { n with nextSibling := some d.size } else n
        if parent = id then adopt n d.size else n := by
  have hlt := lt_size_of_node? hp
  unfold append
  simp only [node?] at hp ⊢
  simp only [hp]
  cases p.lastChild with
  | none =>
    simp only [Array.getElem?_push, Array.size_modify, Array.getElem?_modify, size]
    by_cases hid : id = d.nodes.size
    · simp [hid]
    · by_cases hpid : parent = id <;> simp [hid, hpid]
  | some last =>
    simp only [Array.getElem?_push, Array.size_modify, Array.getElem?_modify, size]
    by_cases hid : id = d.nodes.size
    · simp [hid]
    · by_cases hpid : parent = id <;> by_cases hl : last = id <;>
        simp [hid, hpid, hl, Function.comp_def]

/-- A node that is neither the parent nor its last child is not touched. -/
theorem node?_append_of_ne (hp : d.node? parent = some p) {id : NodeId} (hid : id < d.size)
    (hne : id ≠ parent) (hlast : p.lastChild ≠ some id) :
    (d.append parent content).node? id = d.node? id := by
  rw [node?_append content hp, if_neg (Nat.ne_of_lt hid)]
  simp [hlast, Ne.symm hne]

end Append

/-- Appending in order builds a document if every parent is there when its turn comes: the numbers
that are given out are the ones behind the size. -/
theorem Built.appendAll {d : Document} (hd : d.Built) {steps : List (NodeId × Content)}
    (h : ∀ step ∈ steps.zipIdx d.size, step.1.1 < step.2 ∧ step.1.2 ≠ .document) :
    (d.appendAll steps).Built := by
  induction steps generalizing d with
  | nil => exact hd
  | cons step steps ih =>
    rw [List.zipIdx_cons] at h
    obtain ⟨⟨hparent, hcontent⟩, hsteps⟩ := List.forall_mem_cons.mp h
    exact ih (hd.append hparent hcontent) (by rwa [size_append _ hparent])

/-! ## Links and forests -/

/-- The links of the nodes of a forest, which lie below `parent`. -/
def Linked (d : Document) (parent : Option NodeId) : Forest (NodeId × Content) → Prop
  | .nil => True
  | .node (id, content) children siblings =>
    d.node? id =
      some ⟨content, parent, children.firstId?, children.lastId?, siblings.firstId?⟩ ∧
    Linked d (some id) children ∧ Linked d parent siblings

/-- The document is the forest: one tree below the document node, with every node once. -/
structure Represents (d : Document) (f : Forest (NodeId × Content)) : Prop where
  linked : Linked d none f
  top : ∃ children, f = .node (root, .document) children .nil
  nodup : f.ids.Nodup
  mem_ids : ∀ id, id ∈ f.ids ↔ id < d.size

variable {d d' : Document} {f : Forest (NodeId × Content)}

theorem Linked.congr {above : Option NodeId} (h : Linked d above f)
    (heq : ∀ id ∈ f.ids, d'.node? id = d.node? id) : Linked d' above f := by
  induction f generalizing above with
  | nil => trivial
  | node a kids sibs ihk ihs =>
    obtain ⟨id, content⟩ := a
    obtain ⟨hn, hk, hs⟩ := h
    refine ⟨?_, ihk hk fun i hi => heq i ?_, ihs hs fun i hi => heq i ?_⟩
    · rw [heq id (by simp), hn]
    · simp [hi]
    · simp [hi]

/-- Every node of a linked forest is in the document. -/
theorem Linked.lt_size {above : Option NodeId} (h : Linked d above f) {id : NodeId}
    (hid : id ∈ f.ids) : id < d.size := by
  induction f generalizing above with
  | nil => simp at hid
  | node a kids sibs ihk ihs =>
    obtain ⟨i, content⟩ := a
    obtain ⟨hn, hk, hs⟩ := h
    simp only [Forest.ids_node, List.mem_cons, List.mem_append] at hid
    rcases hid with rfl | hid | hid
    · exact lt_size_of_node? hn
    · exact ihk hk hid
    · exact ihs hs hid

/-- Every label of a linked forest is what the node of its number holds. -/
theorem Linked.content?_eq {above : Option NodeId} (h : Linked d above f) {a : NodeId × Content}
    (ha : a ∈ f.labels) : d.content? a.1 = some a.2 := by
  induction f generalizing above with
  | nil => simp [Forest.labels] at ha
  | node b kids sibs ihk ihs =>
    obtain ⟨i, content⟩ := b
    obtain ⟨hn, hk, hs⟩ := h
    simp only [Forest.labels, List.mem_cons, List.mem_append] at ha
    rcases ha with rfl | ha | ha
    · exact content?_of_node? hn
    · exact ihk hk ha
    · exact ihs hs ha

/-- The last child of a node is in the forest with it. -/
theorem Linked.lastChild_mem {above : Option NodeId} (h : Linked d above f) {id last : NodeId}
    {n : Node} (hid : id ∈ f.ids) (hn : d.node? id = some n) (hl : n.lastChild = some last) :
    last ∈ f.ids := by
  induction f generalizing above with
  | nil => simp at hid
  | node a kids sibs ihk ihs =>
    obtain ⟨i, content⟩ := a
    obtain ⟨hi, hk, hs⟩ := h
    simp only [Forest.ids_node, List.mem_cons, List.mem_append] at hid ⊢
    rcases hid with rfl | hid | hid
    · have hkl : kids.lastId? = some last := by
        rw [hi, Option.some.injEq] at hn
        rw [← hl, ← hn]
      exact .inr (.inl (Forest.lastId?_mem hkl))
    · exact .inr (.inl (ihk hk hid))
    · exact .inr (.inr (ihs hs hid))

/-- The first child and the next sibling of a node are in the forest with it. -/
theorem Linked.links_mem {above : Option NodeId} (h : Linked d above f) {id : NodeId} {n : Node}
    (hid : id ∈ f.ids) (hn : d.node? id = some n) :
    (∀ child, n.firstChild = some child → child ∈ f.ids) ∧
      ∀ next, n.nextSibling = some next → next ∈ f.ids := by
  induction f generalizing above with
  | nil => simp at hid
  | node a kids sibs ihk ihs =>
    obtain ⟨i, content⟩ := a
    obtain ⟨hi, hk, hs⟩ := h
    simp only [Forest.ids_node, List.mem_cons, List.mem_append] at hid ⊢
    rcases hid with rfl | hid | hid
    · rw [hi, Option.some.injEq] at hn
      subst hn
      exact ⟨fun child hchild => .inr (.inl (Forest.firstId?_mem hchild)),
        fun next hnext => .inr (.inr (Forest.firstId?_mem hnext))⟩
    · obtain ⟨hchild, hnext⟩ := ihk hk hid
      exact ⟨fun child hc => .inr (.inl (hchild child hc)),
        fun next hn => .inr (.inl (hnext next hn))⟩
    · obtain ⟨hchild, hnext⟩ := ihs hs hid
      exact ⟨fun child hc => .inr (.inr (hchild child hc)),
        fun next hn => .inr (.inr (hnext next hn))⟩

/-- A leaf behind the last root: that root gets it as its next sibling. -/
theorem Linked.append_leaf {above : Option NodeId} {leaf : NodeId} {content : Content}
    (h : Linked d above f) (hf : f.ids.Nodup)
    (hleaf : d'.node? leaf = some { content, parent := above })
    (hlast : ∀ id, f.lastId? = some id →
      d'.node? id = (d.node? id).map fun n => { n with nextSibling := some leaf })
    (hother : ∀ id ∈ f.ids, f.lastId? ≠ some id → d'.node? id = d.node? id) :
    Linked d' above (f ++ .node (leaf, content) .nil .nil) := by
  induction f with
  | nil => exact ⟨hleaf, trivial, trivial⟩
  | node a kids sibs _ ih =>
    obtain ⟨id, c⟩ := a
    obtain ⟨hn, hk, hs⟩ := h
    simp only [Forest.ids_node, List.nodup_cons, List.nodup_append, List.mem_append,
      not_or] at hf
    obtain ⟨⟨hidk, hids⟩, -, hfs, hks⟩ := hf
    have hkids : (∀ i ∈ kids.ids, Forest.lastId? (.node (id, c) kids sibs) ≠ some i) →
        Linked d' (some id) kids :=
      fun hne => hk.congr fun i hi => hother i (by simp [hi]) (hne i hi)
    cases sibs with
    | nil =>
      refine ⟨?_, hkids ?_, hleaf, trivial, trivial⟩
      · rw [hlast id rfl, hn]; rfl
      · rintro i hi ⟨⟩
        exact hidk hi
    | node b kids' sibs =>
      rw [Forest.lastId?_node_node] at hlast hother hkids
      refine ⟨?_, hkids ?_, ih hs hfs hlast ?_⟩
      · rw [hother id (by simp) fun hl => hids (Forest.lastId?_mem hl), hn]; rfl
      · exact fun i hi hl => hks i hi i (Forest.lastId?_mem hl) rfl
      · exact fun i hi => hother i (by simp [hi])

/-- Appending to a document adds a leaf to every linked forest that has the parent. -/
theorem Linked.addLeaf {above : Option NodeId} {parent : NodeId} {p : Node} {content : Content}
    (h : Linked d above f) (hf : f.ids.Nodup) (hp : d.node? parent = some p)
    (hmem : parent ∈ f.ids) :
    Linked (d.append parent content) above (f.addLeaf parent (d.size, content)) := by
  induction f generalizing above with
  | nil => simp at hmem
  | node a kids sibs ihk ihs =>
    obtain ⟨id, c⟩ := a
    have hlt : ∀ i ∈ Forest.ids (.node (id, c) kids sibs), i < d.size := fun i hi => h.lt_size hi
    obtain ⟨hn, hk, hs⟩ := h
    simp only [Forest.ids_node, List.nodup_cons, List.nodup_append, List.mem_append,
      not_or] at hf
    obtain ⟨⟨hidk, hids⟩, hfk, hfs, hks⟩ := hf
    -- what the parent does not touch keeps its links
    have keep : ∀ {g : Forest (NodeId × Content)} {ab : Option NodeId}, Linked d ab g →
        (∀ i ∈ g.ids, i ∈ Forest.ids (.node (id, c) kids sibs)) →
        parent ∉ g.ids → (∀ l, p.lastChild = some l → l ∉ g.ids) →
        Linked (d.append parent content) ab g := by
      intro g ab hg hsub hpg hlg
      refine hg.congr fun i hi => node?_append_of_ne content hp (hlt i (hsub i hi)) ?_ ?_
      · rintro rfl; exact hpg hi
      · intro hl; exact hlg i hl hi
    simp only [Forest.addLeaf]
    split
    · -- the node is the parent: the leaf ends its children
      rename_i hid
      subst hid
      have hpl : p.lastChild = kids.lastId? := by
        rw [hn, Option.some.injEq] at hp
        rw [← hp]
      have hnew : ∀ i ∈ kids.ids, i ≠ d.size := fun i hi => Nat.ne_of_lt (hlt i (by simp [hi]))
      refine ⟨?_, hk.append_leaf hfk ?_ ?_ ?_, keep hs (fun i hi => by simp [hi]) hids ?_⟩
      · have hne : id ≠ d.size := Nat.ne_of_lt (hlt id (by simp))
        have hid : p.lastChild ≠ some id := fun hl => hidk (Forest.lastId?_mem (hpl ▸ hl))
        rw [node?_append content hp, if_neg hne, hn]
        simp [hid, adopt]
      · rw [node?_append content hp, if_pos rfl]
      · intro i hi
        have him := Forest.lastId?_mem hi
        rw [node?_append content hp, if_neg (hnew i him)]
        have hne : id ≠ i := fun h => hidk (h ▸ him)
        simp [hpl, hi, hne]
      · intro i hi hl
        exact node?_append_of_ne content hp (hlt i (by simp [hi])) (fun h => hidk (h ▸ hi))
          (hpl ▸ hl)
      · exact fun l hl hls => hks l (Forest.lastId?_mem (hpl ▸ hl)) l hls rfl
    · -- the parent is below the node or behind it, and so is the parent's last child
      rename_i hid
      simp only [Forest.ids_node, List.mem_cons, Ne.symm hid, List.mem_append, false_or] at hmem
      have hself : (∀ l, p.lastChild = some l → l ≠ id) →
          (d.append parent content).node? id = d.node? id :=
        fun hl => node?_append_of_ne content hp (hlt id (by simp)) hid fun h => hl id h rfl
      rcases hmem with hmem | hmem
      · have hlk : ∀ l, p.lastChild = some l → l ∈ kids.ids :=
          fun l hl => hk.lastChild_mem hmem hp hl
        have hps : parent ∉ sibs.ids := fun h => hks _ hmem _ h rfl
        rw [Forest.addLeaf_of_notMem hps]
        refine ⟨?_, ihk hk hfk hmem, keep hs (fun i hi => by simp [hi]) hps ?_⟩
        · rw [hself fun l hl h => hidk (h ▸ hlk l hl), hn]
          simp
        · exact fun l hl hls => hks l (hlk l hl) l hls rfl
      · have hls : ∀ l, p.lastChild = some l → l ∈ sibs.ids :=
          fun l hl => hs.lastChild_mem hmem hp hl
        have hpk : parent ∉ kids.ids := fun h => hks _ h _ hmem rfl
        rw [Forest.addLeaf_of_notMem hpk]
        refine ⟨?_, keep hk (fun i hi => by simp [hi]) hpk ?_, ihs hs hfs hmem⟩
        · rw [hself fun l hl h => hids (h ▸ hls l hl), hn]
          simp
        · exact fun l hl hlk => hks l hlk l (hls l hl) rfl

/-! ## The forest of a document -/

theorem Represents.empty : Represents .empty (.node (root, .document) .nil .nil) where
  linked := ⟨rfl, trivial, trivial⟩
  top := ⟨.nil, rfl⟩
  nodup := by simp
  mem_ids id := by simp [Document.empty, size, root]

/-- **Appending is adding a leaf.** -/
theorem Represents.append {parent : NodeId} {content : Content} (h : Represents d f)
    (hp : parent < d.size) :
    Represents (d.append parent content) (f.addLeaf parent (d.size, content)) := by
  obtain ⟨p, hpn⟩ := node?_isSome hp
  have hmem := (h.mem_ids parent).mpr hp
  have hperm : ((f.addLeaf parent (d.size, content)).labels.map Prod.fst).Perm _ :=
    (Forest.labels_addLeaf h.nodup hmem).map Prod.fst
  refine ⟨h.linked.addLeaf h.nodup hpn hmem, ?_, ?_, ?_⟩
  · obtain ⟨kids, hf⟩ := h.top
    rw [hf, Forest.addLeaf]
    split
    · exact ⟨_, rfl⟩
    · exact ⟨_, rfl⟩
  · refine hperm.nodup_iff.mpr (List.nodup_cons.mpr ⟨?_, h.nodup⟩)
    exact fun hs => Nat.lt_irrefl _ ((h.mem_ids d.size).mp hs)
  · intro id
    have hids : id ∈ (f.addLeaf parent (d.size, content)).ids ↔ id = d.size ∨ id ∈ f.ids := by
      simpa [Forest.ids] using hperm.mem_iff (a := id)
    rw [hids, h.mem_ids, size_append content hp]
    lia

/-- Reading a linked forest back takes no more fuel than it has nodes. -/
theorem Linked.forestFrom_eq {above : Option NodeId} (h : Linked d above f) {fuel : Nat}
    (hfuel : f.labels.length ≤ fuel) : d.forestFrom fuel f.firstId? = f := by
  induction f generalizing above fuel with
  | nil => cases fuel <;> rfl
  | node a kids sibs ihk ihs =>
    obtain ⟨id, content⟩ := a
    obtain ⟨hn, hk, hs⟩ := h
    simp only [Forest.labels, List.length_cons, List.length_append] at hfuel
    obtain ⟨fuel, rfl⟩ : ∃ k, fuel = k + 1 := ⟨fuel - 1, by lia⟩
    simp only [Forest.firstId?_node, forestFrom, hn]
    rw [ihk hk (by lia), ihs hs (by lia)]

/-- A document has as many nodes as its forest. -/
theorem Represents.length_labels (h : Represents d f) : f.labels.length = d.size := by
  have hperm : f.ids.Perm (List.range d.size) :=
    (List.perm_ext_iff_of_nodup h.nodup List.nodup_range).mpr fun id => by
      rw [h.mem_ids, List.mem_range]
  simpa [Forest.ids] using hperm.length_eq

/-- The forest that the links of a document describe is the one it represents. -/
theorem Represents.forest_eq (h : Represents d f) : d.forest = f := by
  obtain ⟨kids, hf⟩ := h.top
  have := h.linked.forestFrom_eq (Nat.le_of_eq h.length_labels)
  rwa [show f.firstId? = some root by rw [hf]; rfl] at this

/-- **Every document that was built represents its forest.** -/
theorem Built.represents (h : Built d) : Represents d d.forest := by
  suffices hf : ∃ f, Represents d f by
    obtain ⟨f, hf⟩ := hf
    exact hf.forest_eq ▸ hf
  induction h with
  | empty => exact ⟨_, .empty⟩
  | append _ hp _ ih =>
    obtain ⟨f, hf⟩ := ih
    exact ⟨_, hf.append hp⟩

/-! ## Ancestors -/

/-- Parents come before their children. -/
theorem Built.parent_lt (h : Built d) {id above : NodeId} {n : Node} (hn : d.node? id = some n)
    (ha : n.parent = some above) : above < id := by
  induction h generalizing id n with
  | empty =>
    have hid : id < 1 := lt_size_of_node? hn
    obtain rfl : id = 0 := by lia
    obtain rfl : ({ content := .document } : Node) = n := Option.some.inj hn
    cases ha
  | @append d parent content _ hlt _ ih =>
    obtain ⟨p, hp⟩ := node?_isSome hlt
    rw [node?_append content hp] at hn
    split at hn
    · rename_i hid
      obtain rfl := Option.some.inj hn
      obtain rfl : parent = above := Option.some.inj ha
      exact hid ▸ hlt
    · obtain ⟨m, hm, rfl⟩ := Option.map_eq_some_iff.mp hn
      refine ih hm ?_
      rw [← ha]
      simp only [adopt]
      split <;> split <;> rfl

/-- **The links of a built document** lead to nodes of it. -/
theorem Built.links_lt (h : Built d) {id : NodeId} {n : Node} (hn : d.node? id = some n) :
    (∀ child, n.firstChild = some child → child < d.size) ∧
      (∀ next, n.nextSibling = some next → next < d.size) ∧
      ∀ above, n.parent = some above → above < d.size := by
  have hid := lt_size_of_node? hn
  have hmem := h.represents.mem_ids
  obtain ⟨hchild, hnext⟩ := h.represents.linked.links_mem ((hmem id).mpr hid) hn
  refine ⟨fun child hc => (hmem child).mp (hchild child hc),
    fun next hn => (hmem next).mp (hnext next hn), fun above ha => ?_⟩
  exact Nat.lt_trans (h.parent_lt hn ha) hid

/-- More fuel than the number of the start changes nothing. -/
theorem Built.ancestorsFrom_eq (h : Built d) {start : NodeId} {fuel more : Nat}
    (hf : start < fuel) (hm : start < more) :
    d.ancestorsFrom fuel (some start) = d.ancestorsFrom more (some start) := by
  induction start using Nat.strongRecOn generalizing fuel more with
  | ind start ih =>
    obtain ⟨fuel, rfl⟩ : ∃ k, fuel = k + 1 := ⟨fuel - 1, by lia⟩
    obtain ⟨more, rfl⟩ : ∃ k, more = k + 1 := ⟨more - 1, by lia⟩
    simp only [ancestorsFrom]
    congr 1
    cases hn : d.node? start with
    | none => cases fuel <;> cases more <;> rfl
    | some n =>
      cases ha : n.parent with
      | none => simp only [Option.bind_some, ha]; cases fuel <;> cases more <;> rfl
      | some above =>
        have hlt := h.parent_lt hn ha
        simpa only [Option.bind_some, ha] using ih above hlt (by lia) (by lia)

theorem ancestors_eq_nil {id : NodeId} {n : Node} (hn : d.node? id = some n)
    (ha : n.parent = none) : d.ancestors id = [] := by
  rw [ancestors, hn, Option.bind_some, ha]
  cases id <;> rfl

/-- **The ancestors of a node** are its parent and the ancestors of its parent. -/
theorem Built.ancestors_cons (h : Built d) {id above : NodeId} {n : Node}
    (hn : d.node? id = some n) (ha : n.parent = some above) :
    d.ancestors id = above :: d.ancestors above := by
  have hlt := h.parent_lt hn ha
  obtain ⟨k, rfl⟩ : ∃ k, id = k + 1 := ⟨id - 1, by lia⟩
  simp only [ancestors, hn, Option.bind_some, ha, ancestorsFrom]
  congr 1
  cases hm : d.node? above with
  | none => cases k <;> cases above <;> rfl
  | some m =>
    cases hb : m.parent with
    | none => simp only [Option.bind_some, hb]; cases k <;> cases above <;> rfl
    | some b =>
      have := h.parent_lt hm hb
      simpa only [Option.bind_some, hb] using h.ancestorsFrom_eq (by lia) (by lia)

end Document

end DomScript
