/-
DomScript.Proofs.Document.Links — the links of a document are the links of a tree.

A node has four links, and appending sets up to four of them. What they have to agree on is told by
the parents alone: `childIds d p` lists the nodes whose parent is `p`, in ascending order. First
child, last child and next sibling must spell that list for every node (`Threaded`), which is what
one append keeps (`Threaded.append`) and hence every sequence of them.

* `Leads` — following one link from node to node, to the end;
* `Built.children_eq` — the children are the nodes with that parent, in ascending order;
* `Built.leads_ancestors` — the ancestors are what the parent links lead to;
* `Preorder` — a walk through the children in document order, and `Built.preorder`, what it meets;
* `built_tree` — documents that were built are trees, and appending adds a last child to a node.
-/
import DomScript.Proofs.Document.Shape

namespace DomScript.Document

/-! ## Following a link -/

/-- Following `link` from `start?` on comes to an end, and has met the nodes of the list by then. -/
inductive Leads (link : NodeId → Option NodeId) : Option NodeId → List NodeId → Prop
  | done : Leads link none []
  | step {id : NodeId} {ids : List NodeId} :
    Leads link (link id) ids → Leads link (some id) (id :: ids)

/-- The link of every node on the way is the node behind it. -/
theorem leads_iff {link : NodeId → Option NodeId} {start? : Option NodeId} {ids : List NodeId} :
    Leads link start? ids ↔
      start? = ids.head? ∧ ∀ i id : Nat, ids[i]? = some id → link id = ids[i + 1]? := by
  induction ids generalizing start? with
  | nil =>
    constructor
    · rintro ⟨⟩
      simp
    · rintro ⟨rfl, -⟩
      exact .done
  | cons a ids ih =>
    constructor
    · intro h
      cases h with
      | step h =>
        obtain ⟨hstart, hnext⟩ := ih.mp h
        refine ⟨rfl, fun i id hi => ?_⟩
        cases i with
        | zero =>
          obtain rfl : a = id := by simpa using hi
          rw [List.getElem?_cons_succ, ← List.head?_eq_getElem?]
          exact hstart
        | succ i => exact hnext i id (by simpa using hi)
    · rintro ⟨rfl, hnext⟩
      refine .step (ih.mpr ⟨?_, fun i id hi => ?_⟩)
      · rw [hnext 0 a rfl, List.getElem?_cons_succ, List.head?_eq_getElem?]
      · simpa using hnext (i + 1) id (by simpa using hi)

variable {d : Document}

/-- The first child of a node. -/
def firstChild? (d : Document) (id : NodeId) : Option NodeId :=
  (d.node? id).bind Node.firstChild

/-- The last child of a node. -/
def lastChild? (d : Document) (id : NodeId) : Option NodeId :=
  (d.node? id).bind Node.lastChild

/-- The sibling behind a node. -/
def nextSibling? (d : Document) (id : NodeId) : Option NodeId :=
  (d.node? id).bind Node.nextSibling

/-- Fuel for every node of the way is enough. -/
theorem Leads.siblingsFrom_eq {start? : Option NodeId} {ids : List NodeId}
    (h : Leads d.nextSibling? start? ids) {fuel : Nat} (hfuel : ids.length ≤ fuel) :
    d.siblingsFrom fuel start? = ids := by
  induction h generalizing fuel with
  | done => cases fuel <;> rfl
  | @step id ids _ ih =>
    rw [List.length_cons] at hfuel
    obtain ⟨fuel, rfl⟩ : ∃ k, fuel = k + 1 := ⟨fuel - 1, by omega⟩
    have hrest : d.siblingsFrom fuel (d.nextSibling? id) = ids := ih (by omega)
    show id :: d.siblingsFrom fuel (d.nextSibling? id) = id :: ids
    rw [hrest]

/-! ## Links after appending -/

section Append

variable {parent : NodeId} (content : Content)

/-- A node that was there: its own content and parent, the new node as its last child if it is the
parent, and as its next sibling if it was the last child of the parent. -/
theorem node?_append_of_lt (hp : parent < d.size) {id : NodeId} {n : Node} (hn : d.node? id = some n) :
    (d.append parent content).node? id = some
      { content := n.content
        parent := n.parent
        firstChild := if id = parent then n.firstChild.or (some d.size) else n.firstChild
        lastChild := if id = parent then some d.size else n.lastChild
        nextSibling := if d.lastChild? parent = some id then some d.size else n.nextSibling } := by
  obtain ⟨p, hpn⟩ := node?_isSome hp
  have hid : id ≠ d.size := Nat.ne_of_lt (lt_size_of_node? hn)
  have hlast : d.lastChild? parent = p.lastChild := by rw [lastChild?, hpn, Option.bind_some]
  rw [node?_append content hpn, if_neg hid, hn, hlast, Option.map_some]
  by_cases hparent : id = parent
  · subst hparent
    by_cases hsibling : p.lastChild = some id <;> simp [hsibling, adopt]
  · by_cases hsibling : p.lastChild = some id <;> simp [hsibling, hparent, Ne.symm hparent]

theorem node?_of_le {id : NodeId} (h : d.size ≤ id) : d.node? id = none :=
  Array.getElem?_eq_none h

/-- The new node has a parent and no other link. -/
theorem node?_append_size (hp : parent < d.size) :
    (d.append parent content).node? d.size = some { content, parent := some parent } := by
  obtain ⟨p, hpn⟩ := node?_isSome hp
  rw [node?_append content hpn, if_pos rfl]

theorem parent?_append (hp : parent < d.size) (id : NodeId) :
    (d.append parent content).parent? id = if id = d.size then some parent else d.parent? id := by
  by_cases hid : id = d.size
  · rw [if_pos hid, hid, parent?, node?_append_size content hp, Option.bind_some]
  · rw [if_neg hid]
    cases hn : d.node? id with
    | none =>
      obtain ⟨p, hpn⟩ := node?_isSome hp
      rw [parent?, parent?, node?_append content hpn, if_neg hid, hn]
      rfl
    | some n => rw [parent?, parent?, node?_append_of_lt content hp hn, hn, Option.bind_some,
        Option.bind_some]

/-- A link that new nodes do not have, and that appending sets at the parent only. -/
theorem link_append {link : Node → Option NodeId} {new? : Option NodeId} (hp : parent < d.size)
    (hnone : link { content, parent := some parent } = none)
    (hlink : ∀ {id n n'}, d.node? id = some n → (d.append parent content).node? id = some n' →
      link n' = if id = parent then new? else link n) (id : NodeId) :
    ((d.append parent content).node? id).bind link =
      if id = parent then new? else (d.node? id).bind link := by
  rcases Nat.lt_trichotomy id d.size with hid | rfl | hid
  · obtain ⟨n, hn⟩ := node?_isSome hid
    have hn' := node?_append_of_lt content hp hn
    rw [hn', hn, Option.bind_some, Option.bind_some, hlink hn hn']
  · rw [node?_append_size content hp, Option.bind_some, hnone, if_neg (Nat.ne_of_gt hp),
      node?_of_le (Nat.le_refl _), Option.bind_none]
  · have hbeyond : (d.append parent content).size ≤ id := by
      rw [size_append content hp]
      exact hid
    rw [node?_of_le hbeyond, if_neg (Nat.ne_of_gt (Nat.lt_trans hp hid)),
      node?_of_le (Nat.le_of_lt hid), Option.bind_none]

theorem firstChild?_append (hp : parent < d.size) (id : NodeId) :
    (d.append parent content).firstChild? id =
      if id = parent then (d.firstChild? parent).or (some d.size) else d.firstChild? id := by
  refine link_append content hp rfl (fun {id n n'} hn hn' => ?_) id
  rw [node?_append_of_lt content hp hn] at hn'
  obtain rfl := Option.some.inj hn'
  split
  · rename_i h
    rw [firstChild?, ← h, hn, Option.bind_some]
  · rfl

theorem lastChild?_append (hp : parent < d.size) (id : NodeId) :
    (d.append parent content).lastChild? id =
      if id = parent then some d.size else d.lastChild? id := by
  refine link_append content hp rfl (fun {id n n'} hn hn' => ?_) id
  rw [node?_append_of_lt content hp hn] at hn'
  obtain rfl := Option.some.inj hn'
  rfl

theorem nextSibling?_append (hp : parent < d.size) {id : NodeId} (hid : id < d.size) :
    (d.append parent content).nextSibling? id =
      if d.lastChild? parent = some id then some d.size else d.nextSibling? id := by
  obtain ⟨n, hn⟩ := node?_isSome hid
  rw [nextSibling?, nextSibling?, node?_append_of_lt content hp hn, hn, Option.bind_some,
    Option.bind_some]

theorem content?_append (hp : parent < d.size) {id : NodeId} (hid : id < d.size) :
    (d.append parent content).content? id = d.content? id := by
  obtain ⟨n, hn⟩ := node?_isSome hid
  rw [content?_of_node? (node?_append_of_lt content hp hn), content?_of_node? hn]

end Append

/-! ## Lists of children -/

/-- The nodes whose parent is `p`, in ascending order. -/
def childIds (d : Document) (p : NodeId) : List NodeId :=
  (List.range d.size).filter fun id => d.parent? id = some p

theorem mem_childIds {p id : NodeId} : id ∈ d.childIds p ↔ d.parent? id = some p := by
  simp only [childIds, List.mem_filter, List.mem_range, decide_eq_true_eq, and_iff_right_iff_imp]
  intro h
  obtain ⟨n, hn, -⟩ := Option.bind_eq_some_iff.mp h
  exact lt_size_of_node? hn

theorem pairwise_childIds (p : NodeId) : (d.childIds p).Pairwise (· < ·) :=
  List.pairwise_lt_range.filter _

theorem length_childIds_le (p : NodeId) : (d.childIds p).length ≤ d.size := by
  unfold childIds
  calc ((List.range d.size).filter _).length ≤ (List.range d.size).length :=
        List.length_filter_le _ _
    _ = d.size := List.length_range

theorem childIds_append {parent : NodeId} (content : Content) (hp : parent < d.size) (p : NodeId) :
    (d.append parent content).childIds p =
      d.childIds p ++ if p = parent then [d.size] else [] := by
  simp only [childIds, size_append content hp, List.range_succ, List.filter_append]
  congr 1
  · refine List.filter_congr fun id hid => ?_
    rw [parent?_append content hp, if_neg (Nat.ne_of_lt (List.mem_range.mp hid))]
  · have hnew : (d.append parent content).parent? d.size = some parent := by
      rw [parent?_append content hp, if_pos rfl]
    by_cases h : p = parent
    · simp [hnew, h]
    · simp [hnew, h, Ne.symm h]

/-- First child, last child and next sibling spell the list of the children, for every node. -/
structure Threaded (d : Document) : Prop where
  first : ∀ p, d.firstChild? p = (d.childIds p).head?
  last : ∀ p, d.lastChild? p = (d.childIds p).getLast?
  next : ∀ p i id : Nat, (d.childIds p)[i]? = some id → d.nextSibling? id = (d.childIds p)[i + 1]?

theorem lt_size_of_parent? {id p : NodeId} (h : d.parent? id = some p) : id < d.size := by
  obtain ⟨n, hn, -⟩ := Option.bind_eq_some_iff.mp h
  exact lt_size_of_node? hn

theorem Built.parent?_lt (h : d.Built) {id p : NodeId} (hp : d.parent? id = some p) : p < id := by
  obtain ⟨n, hn, ha⟩ := Option.bind_eq_some_iff.mp hp
  exact h.parent_lt hn ha

theorem childIds_empty (p : NodeId) : childIds .empty p = [] := by
  refine List.eq_nil_iff_forall_not_mem.mpr fun id hid => ?_
  have hp := mem_childIds.mp hid
  have hlt : id < 1 := lt_size_of_parent? hp
  exact Nat.not_lt_zero p (Nat.lt_one_iff.mp hlt ▸ Built.empty.parent?_lt hp)

theorem threaded_empty : Threaded .empty := by
  refine ⟨fun p => ?_, fun p => ?_, fun p i id hi => ?_⟩
  · rw [childIds_empty]
    cases p <;> rfl
  · rw [childIds_empty]
    cases p <;> rfl
  · rw [childIds_empty] at hi
    simp at hi

/-- A node that was there is followed by the child behind it, which may be the new one. -/
theorem Threaded.next_append {parent : NodeId} (content : Content) (h : Threaded d)
    (hp : parent < d.size) {p i id : Nat} (hi : (d.childIds p)[i]? = some id) :
    (d.append parent content).nextSibling? id =
      ((d.append parent content).childIds p)[i + 1]? := by
  have hparent := mem_childIds.mp (List.mem_of_getElem? hi)
  rw [nextSibling?_append content hp (lt_size_of_parent? hparent), childIds_append content hp, h.last]
  by_cases hpp : p = parent
  · subst hpp
    have hold : i < (d.childIds p).length := (List.getElem?_eq_some_iff.mp hi).1
    rw [if_pos rfl, List.getLast?_eq_getElem?]
    by_cases hlast : i + 1 < (d.childIds p).length
    · have hne : (d.childIds p)[(d.childIds p).length - 1]? ≠ some id := by
        intro heq
        have := (List.getElem?_inj hold (pairwise_childIds p).nodup).mp (hi.trans heq.symm)
        omega
      rw [if_neg hne, h.next p i id hi, List.getElem?_append_left hlast]
    · -- the node was the last one, and the new node stands behind it now
      have hi' : i = (d.childIds p).length - 1 := by omega
      have hnext : i + 1 = (d.childIds p).length := by omega
      rw [← hi', if_pos hi, hnext, List.getElem?_concat_length]
  · have hne : (d.childIds parent).getLast? ≠ some id := by
      intro heq
      have hother := mem_childIds.mp (List.mem_of_getLast? heq)
      exact hpp (Option.some.inj (hparent.symm.trans hother))
    rw [if_neg hne, if_neg hpp, List.append_nil, h.next p i id hi]

/-- **One append** keeps the children threaded. -/
theorem Threaded.append {parent : NodeId} (content : Content) (h : Threaded d)
    (hp : parent < d.size) : Threaded (d.append parent content) := by
  refine ⟨fun p => ?_, fun p => ?_, fun p i id hi => ?_⟩
  · rw [firstChild?_append content hp, childIds_append content hp, h.first, h.first]
    split
    · rename_i hpp
      rw [hpp, List.head?_append]
      rfl
    · rw [List.append_nil]
  · rw [lastChild?_append content hp, childIds_append content hp, h.last]
    split
    · rw [List.getLast?_concat]
    · rw [List.append_nil]
  · by_cases hold : i < (d.childIds p).length
    · rw [childIds_append content hp, List.getElem?_append_left hold] at hi
      exact h.next_append content hp hi
    · -- only the list of the parent has grown, by the new node, which nothing follows
      rw [childIds_append content hp, List.getElem?_append_right (Nat.le_of_not_lt hold)] at hi
      rw [childIds_append content hp]
      split at hi
      · rename_i hpp
        obtain ⟨hzero, rfl⟩ : i - (d.childIds p).length = 0 ∧ d.size = id := by
          cases hk : i - (d.childIds p).length with
          | zero => simpa [hk] using hi
          | succ k => simp [hk] at hi
        rw [nextSibling?, node?_append_size content hp, if_pos hpp, List.getElem?_eq_none]
        · rfl
        · rw [List.length_append, List.length_singleton]
          omega
      · simp at hi

/-- **The children of every node are threaded.** -/
theorem Built.threaded (h : d.Built) : Threaded d := by
  induction h with
  | empty => exact threaded_empty
  | append _ hp _ ih => exact ih.append _ hp

/-- Following the siblings comes to the end of the children. -/
theorem Built.leads_childIds (h : d.Built) (p : NodeId) :
    Leads d.nextSibling? (d.firstChild? p) (d.childIds p) :=
  leads_iff.mpr ⟨h.threaded.first p, h.threaded.next p⟩

/-- **The children of a node** are the nodes with that parent, in ascending order. -/
theorem Built.children_eq (h : d.Built) (p : NodeId) : d.children p = d.childIds p :=
  (h.leads_childIds p).siblingsFrom_eq (length_childIds_le p)

theorem Built.mem_children (h : d.Built) {p id : NodeId} :
    id ∈ d.children p ↔ d.parent? id = some p := by
  rw [h.children_eq, mem_childIds]

/-! ## Ancestors -/

theorem ancestors_of_parent?_eq_none {id : NodeId} (h : d.parent? id = none) :
    d.ancestors id = [] := by
  have hstart : d.ancestors id = d.ancestorsFrom id (d.parent? id) := rfl
  rw [hstart, h]
  cases id <;> rfl

theorem Built.ancestors_of_parent? (h : d.Built) {id above : NodeId} (hp : d.parent? id = some above) :
    d.ancestors id = above :: d.ancestors above := by
  obtain ⟨n, hn, ha⟩ := Option.bind_eq_some_iff.mp hp
  exact h.ancestors_cons hn ha

/-- **The ancestors of a node** are what the parent links lead to. -/
theorem Built.leads_ancestors (h : d.Built) (id : NodeId) :
    Leads d.parent? (d.parent? id) (d.ancestors id) := by
  induction id using Nat.strongRecOn with
  | ind id ih =>
    cases hp : d.parent? id with
    | none =>
      rw [ancestors_of_parent?_eq_none hp]
      exact .done
    | some above =>
      rw [h.ancestors_of_parent? hp]
      exact .step (ih above (h.parent?_lt hp))

/-- On the way up the numbers fall. -/
theorem Built.pairwise_ancestors (h : d.Built) (id : NodeId) :
    (id :: d.ancestors id).Pairwise (· > ·) := by
  induction id using Nat.strongRecOn with
  | ind id ih =>
    cases hp : d.parent? id with
    | none =>
      rw [ancestors_of_parent?_eq_none hp]
      exact List.pairwise_singleton ..
    | some above =>
      have hlt := h.parent?_lt hp
      have habove := ih above hlt
      rw [h.ancestors_of_parent? hp]
      refine List.pairwise_cons.mpr ⟨fun a ha => ?_, habove⟩
      rcases List.mem_cons.mp ha with rfl | ha
      · exact hlt
      · exact Nat.lt_trans ((List.pairwise_cons.mp habove).1 a ha) hlt

theorem Built.exists_parent? (h : d.Built) {id : NodeId} (hid : id < d.size) (hne : id ≠ root) :
    ∃ above, d.parent? id = some above := by
  induction h with
  | empty =>
    have hid : id < 1 := hid
    exact absurd (Nat.lt_one_iff.mp hid) hne
  | append _ hp _ ih =>
    rw [size_append _ hp] at hid
    rw [parent?_append _ hp]
    split
    · exact ⟨_, rfl⟩
    · exact ih (by lia)

theorem Built.links_root (h : d.Built) : d.parent? root = none ∧ d.nextSibling? root = none := by
  obtain ⟨kids, htop⟩ := h.represents.top
  have hlinked := h.represents.linked
  rw [htop] at hlinked
  rw [parent?, nextSibling?, hlinked.1]
  exact ⟨rfl, rfl⟩

/-- The way up from every other node ends at the document node. -/
theorem Built.getLast?_ancestors (h : d.Built) {id : NodeId} (hid : id < d.size) (hne : id ≠ root) :
    (d.ancestors id).getLast? = some root := by
  induction id using Nat.strongRecOn with
  | ind id ih =>
    obtain ⟨above, hp⟩ := h.exists_parent? hid hne
    have hlt := h.parent?_lt hp
    rw [h.ancestors_of_parent? hp]
    by_cases habove : above = root
    · rw [habove, ancestors_of_parent?_eq_none h.links_root.1]
      rfl
    · rw [List.getLast?_cons, ih above hlt (Nat.lt_trans hlt hid) habove]
      rfl

/-! ## The walk in document order -/

/-- Walking from each node of a list through its children, a node before what is below it and all
that before the nodes behind it, meets the nodes of the second list in order. -/
inductive Preorder (d : Document) : List NodeId → List NodeId → Prop
  | nil : Preorder d [] []
  | cons {id : NodeId} {behind below rest : List NodeId} :
    Preorder d (d.children id) below → Preorder d behind rest →
      Preorder d (id :: behind) (id :: (below ++ rest))

/-- There is one walk at most. -/
theorem Preorder.unique {starts walk other : List NodeId} (h : Preorder d starts walk)
    (k : Preorder d starts other) : walk = other := by
  induction h generalizing other with
  | nil =>
    cases k
    rfl
  | cons _ _ ihbelow ihrest =>
    cases k with
    | cons hbelow hrest => rw [ihbelow hbelow, ihrest hrest]

/-- The walk through what is linked meets its nodes in document order. -/
theorem Linked.preorder {above : Option NodeId} {f : Forest (NodeId × Content)}
    (h : d.Linked above f) (hf : f.ids.Nodup) : Preorder d f.roots f.ids := by
  induction f generalizing above with
  | nil => exact .nil
  | node a kids sibs ihk ihs =>
    obtain ⟨id, content⟩ := a
    rw [Forest.ids_node, List.nodup_cons, List.nodup_append] at hf
    have hbelow := ihk h.2.1 hf.2.1
    rw [← h.children_eq hf.2.1] at hbelow
    rw [Forest.roots_node, Forest.ids_node]
    exact .cons hbelow (ihs h.2.2 hf.2.2.1)

/-- **The walk from the document node** meets every node once. -/
theorem Built.preorder (h : d.Built) :
    Preorder d [root] d.forest.ids ∧ d.forest.ids.Perm (List.range d.size) := by
  obtain ⟨kids, htop⟩ := h.represents.top
  have hwalk := h.represents.linked.preorder h.represents.nodup
  refine ⟨?_, ?_⟩
  · rwa [show d.forest.roots = [root] by rw [htop]; rfl] at hwalk
  · refine (List.perm_ext_iff_of_nodup h.represents.nodup List.nodup_range).mpr fun id => ?_
    rw [h.represents.mem_ids, List.mem_range]

/-! ## The document as a tree -/

/-- The document is a tree, by whichever links it is read. -/
structure IsTree (d : Document) : Prop where
  /-- A parent has a smaller number. -/
  parent_lt : ∀ id < d.size, id ≠ root → ∃ p < id, d.parent? id = some p
  /-- The siblings lead through the children to an end, -/
  leads_children : ∀ p, Leads d.nextSibling? (d.firstChild? p) (d.children p)
  /-- which are all the nodes with that parent, -/
  mem_children : ∀ p id, id ∈ d.children p ↔ d.parent? id = some p
  /-- in ascending order. -/
  pairwise_children : ∀ p, (d.children p).Pairwise (· < ·)
  firstChild_eq : ∀ p, d.firstChild? p = (d.children p).head?
  lastChild_eq : ∀ p, d.lastChild? p = (d.children p).getLast?
  /-- Next siblings are neighbours among the children of some node, and these only. -/
  nextSibling_iff : ∀ id other : Nat, d.nextSibling? id = some other ↔
    ∃ p i : Nat, (d.children p)[i]? = some id ∧ (d.children p)[i + 1]? = some other
  /-- The parents lead through the ancestors to an end, -/
  leads_ancestors : ∀ id, Leads d.parent? (d.parent? id) (d.ancestors id)
  /-- with falling numbers, -/
  pairwise_ancestors : ∀ id, (d.ancestors id).Pairwise (· > ·)
  /-- up to the document node. -/
  ancestors_top : ∀ id < d.size, id ≠ root → (d.ancestors id).getLast? = some root
  ancestors_root : d.ancestors root = []
  /-- Every other node is a child of just one node. -/
  existsUnique_parent : ∀ id < d.size, id ≠ root → ∃! p, id ∈ d.children p
  /-- The walk from the document node meets every node once. -/
  preorder : ∃ walk, (∀ other, Preorder d [root] other ↔ other = walk) ∧
    walk.Perm (List.range d.size)

/-- What a node appended below `parent` changes: there is one node more, numbered by the old size,
which is the last child of its parent. All else is as it was. -/
structure Appended (d e : Document) (parent : NodeId) (content : Content) : Prop where
  size_eq : e.size = d.size + 1
  content_new : e.content? d.size = some content
  parent_new : e.parent? d.size = some parent
  children_new : e.children d.size = []
  children_parent : e.children parent = d.children parent ++ [d.size]
  content_kept : ∀ id < d.size, e.content? id = d.content? id
  parent_kept : ∀ id < d.size, e.parent? id = d.parent? id
  children_kept : ∀ id < d.size, id ≠ parent → e.children id = d.children id

theorem Built.nextSibling?_iff (h : d.Built) (id other : Nat) :
    d.nextSibling? id = some other ↔
      ∃ p i : Nat, (d.children p)[i]? = some id ∧ (d.children p)[i + 1]? = some other := by
  constructor
  · intro hnext
    have hid : id < d.size := by
      obtain ⟨n, hn, -⟩ := Option.bind_eq_some_iff.mp hnext
      exact lt_size_of_node? hn
    have hne : id ≠ root := by
      rintro rfl
      rw [h.links_root.2] at hnext
      cases hnext
    obtain ⟨p, hp⟩ := h.exists_parent? hid hne
    obtain ⟨i, hi⟩ := List.mem_iff_getElem?.mp (mem_childIds.mpr hp)
    refine ⟨p, i, by rw [h.children_eq, hi], ?_⟩
    rw [h.children_eq, ← h.threaded.next p i id hi, hnext]
  · rintro ⟨p, i, hi, hother⟩
    rw [h.children_eq] at hi hother
    rw [h.threaded.next p i id hi, hother]

theorem Built.isTree (h : d.Built) : d.IsTree where
  parent_lt id hid hne := by
    obtain ⟨p, hp⟩ := h.exists_parent? hid hne
    exact ⟨p, h.parent?_lt hp, hp⟩
  leads_children p := by
    rw [h.children_eq]
    exact h.leads_childIds p
  mem_children p id := h.mem_children
  pairwise_children p := by
    rw [h.children_eq]
    exact pairwise_childIds p
  firstChild_eq p := by rw [h.children_eq, h.threaded.first]
  lastChild_eq p := by rw [h.children_eq, h.threaded.last]
  nextSibling_iff := h.nextSibling?_iff
  leads_ancestors := h.leads_ancestors
  pairwise_ancestors id := (List.pairwise_cons.mp (h.pairwise_ancestors id)).2
  ancestors_top id hid hne := h.getLast?_ancestors hid hne
  ancestors_root := ancestors_of_parent?_eq_none h.links_root.1
  existsUnique_parent id hid hne := by
    obtain ⟨p, hp⟩ := h.exists_parent? hid hne
    refine ⟨p, h.mem_children.mpr hp, fun q hq => ?_⟩
    exact Option.some.inj ((h.mem_children.mp hq).symm.trans hp)
  preorder := by
    obtain ⟨hwalk, hperm⟩ := h.preorder
    refine ⟨d.forest.ids, fun other => ⟨fun hother => hother.unique hwalk, ?_⟩, hperm⟩
    rintro rfl
    exact hwalk

theorem Built.appended {parent : NodeId} {content : Content} (h : d.Built) (hp : parent < d.size)
    (hc : content ≠ .document) : Appended d (d.append parent content) parent content := by
  have hnew := node?_append_size content hp
  have happended := h.append hp hc
  have hnone : d.childIds d.size = [] := by
    refine List.eq_nil_iff_forall_not_mem.mpr fun id hid => ?_
    have hid := mem_childIds.mp hid
    exact Nat.lt_asymm (h.parent?_lt hid) (lt_size_of_parent? hid)
  refine ⟨size_append content hp, content?_of_node? hnew, ?_, ?_, ?_, ?_, ?_, ?_⟩
  · rw [parent?_append content hp, if_pos rfl]
  · rw [happended.children_eq, childIds_append content hp, hnone, if_neg (Nat.ne_of_gt hp)]
    rfl
  · rw [happended.children_eq, childIds_append content hp, if_pos rfl, h.children_eq]
  · exact fun id hid => content?_append content hp hid
  · exact fun id hid => by rw [parent?_append content hp, if_neg (Nat.ne_of_lt hid)]
  · intro id hid hne
    rw [happended.children_eq, childIds_append content hp, if_neg hne, List.append_nil, h.children_eq]

/-- **Documents that were built are trees**, whatever nodes were appended where, and one more append
adds a last child to one node and changes nothing else. -/
theorem built_tree (h : d.Built) :
    d.IsTree ∧ ∀ (parent : NodeId) (content : Content), parent < d.size → content ≠ .document →
      Appended d (d.append parent content) parent content :=
  ⟨h.isTree, fun _ _ hp hc => h.appended hp hc⟩

/-- A comment appended to an old node deep inside a document. -/
theorem built_tree_specimen :
    let e := specimen.append 3 (.comment "late")
    specimen.Built ∧ specimen.children 1 = [2, 5] ∧ specimen.ancestors 4 = [3, 2, 1, 0] ∧
      3 < specimen.size ∧ e.children 3 = [4, 12] ∧ e.children 1 = [2, 5] := by
  intro e
  obtain ⟨htree, happended⟩ := built_tree specimen_built
  have he : Appended specimen e 3 (.comment "late") := happended 3 _ (by decide) (by decide)
  refine ⟨specimen_built, by decide, by decide, by decide, ?_, ?_⟩
  · exact he.children_parent.trans (by decide)
  · exact (he.children_kept 1 (by decide) (by decide)).trans (by decide)

end DomScript.Document
