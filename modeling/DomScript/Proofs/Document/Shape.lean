/-
DomScript.Proofs.Document.Shape — trees without the numbers of their nodes.

A document can be built in many orders, and its nodes are numbered in the order in which they come.
The shape of a forest is what is left without the numbers. `Renumbers σ d e` says, in terms of what
can be read from two documents, that `σ` takes one to the other: it keeps the document node, what
every node holds, and its children with their order.

* `Linked.children_eq` — the children of a node are the roots of the forest below it;
* `exists_renumber` — forests of one shape differ in their numbers only;
* `Renumbers.forest_eq` — documents that renumber to each other have the same tree but for numbers;
* `Renumbers.bijOn` — each node of the one is then exactly one node of the other.
-/
import Mathlib.Data.List.Nodup
import Mathlib.Data.List.Perm.Subperm
import Mathlib.Data.Set.Function
import Mathlib.Order.Interval.Set.Defs
import DomScript.Proofs.Document.Tree

namespace DomScript

/-! ## Shapes and numbers of a forest -/

namespace Forest

variable {α : Type}

/-- The roots, in order. -/
def roots : Forest (NodeId × α) → List NodeId
  | nil => []
  | node (id, _) _ siblings => id :: roots siblings

/-- What the nodes hold, without their numbers. -/
def shape (f : Forest (NodeId × α)) : Forest α :=
  f.map Prod.snd

/-- The same forest under other numbers. -/
def renumber (σ : NodeId → NodeId) (f : Forest (NodeId × α)) : Forest (NodeId × α) :=
  f.map (Prod.map σ id)

variable (σ : NodeId → NodeId) (i : NodeId) (a : α) (f g kids sibs : Forest (NodeId × α))

@[simp] theorem roots_nil : roots (nil : Forest (NodeId × α)) = [] := rfl
@[simp] theorem roots_node : roots (node (i, a) kids sibs) = i :: sibs.roots := rfl
@[simp] theorem shape_nil : shape (nil : Forest (NodeId × α)) = nil := rfl
@[simp] theorem shape_node : shape (node (i, a) kids sibs) = node a kids.shape sibs.shape := rfl
@[simp] theorem renumber_nil : renumber σ (nil : Forest (NodeId × α)) = nil := rfl
@[simp] theorem renumber_node :
    renumber σ (node (i, a) kids sibs) = node (σ i, a) (kids.renumber σ) (sibs.renumber σ) := rfl

@[simp] theorem shape_append : (f ++ g).shape = f.shape ++ g.shape :=
  map_append ..

theorem roots_sublist : f.roots.Sublist f.ids := by
  induction f with
  | nil => exact .slnil
  | node a kids sibs _ ih =>
    obtain ⟨i, a⟩ := a
    rw [roots_node, ids_node]
    exact (ih.trans (List.sublist_append_right _ _)).cons_cons i

@[simp] theorem shape_renumber : (f.renumber σ).shape = f.shape := by
  induction f with
  | nil => rfl
  | node a kids sibs ihk ihs =>
    obtain ⟨i, a⟩ := a
    rw [renumber_node, shape_node, shape_node, ihk, ihs]

@[simp] theorem ids_renumber : (f.renumber σ).ids = f.ids.map σ := by
  induction f with
  | nil => rfl
  | node a kids sibs ihk ihs =>
    obtain ⟨i, a⟩ := a
    rw [renumber_node, ids_node, ids_node, ihk, ihs, List.map_cons, List.map_append]

variable {σ f g}

/-- Only the numbers of the forest itself matter. -/
theorem renumber_congr {τ : NodeId → NodeId} (h : ∀ i ∈ f.ids, σ i = τ i) :
    f.renumber σ = f.renumber τ := by
  induction f with
  | nil => rfl
  | node a kids sibs ihk ihs =>
    obtain ⟨i, a⟩ := a
    simp only [ids_node, List.mem_cons, List.mem_append] at h
    rw [renumber_node, renumber_node, h i (.inl rfl), ihk fun j hj => h j (.inr (.inl hj)),
      ihs fun j hj => h j (.inr (.inr hj))]

/-- **Forests of one shape differ in their numbers only.** -/
theorem exists_renumber (hf : f.ids.Nodup) (h : g.shape = f.shape) : ∃ σ, g = f.renumber σ := by
  induction f generalizing g with
  | nil =>
    cases g with
    | nil => exact ⟨id, rfl⟩
    | node b kids' sibs' => cases h
  | node a kids sibs ihk ihs =>
    cases g with
    | nil => cases h
    | node b kids' sibs' =>
      obtain ⟨i, a⟩ := a
      obtain ⟨j, b⟩ := b
      simp only [shape_node, node.injEq] at h
      obtain ⟨rfl, hk, hs⟩ := h
      simp only [ids_node, List.nodup_cons, List.nodup_append, List.mem_append, not_or] at hf
      obtain ⟨⟨hik, his⟩, hfk, hfs, hks⟩ := hf
      obtain ⟨τ, rfl⟩ := ihk hfk hk
      obtain ⟨ρ, rfl⟩ := ihs hfs hs
      -- no number stands in two of the three places, so the maps can be put together
      refine ⟨fun n => if n = i then j else if n ∈ kids.ids then τ n else ρ n, ?_⟩
      rw [renumber_node]
      congr 1
      · simp
      · refine renumber_congr fun n hn => ?_
        have hne : n ≠ i := fun he => hik (he ▸ hn)
        rw [if_neg hne, if_pos hn]
      · refine renumber_congr fun n hn => ?_
        have hne : n ≠ i := fun he => his (he ▸ hn)
        rw [if_neg hne, if_neg fun hk => hks n hk n hn rfl]

/-- A forest whose shape is made of two parts is made of two parts. -/
theorem exists_append_of_shape {s t : Forest α} (h : f.shape = s ++ t) :
    ∃ g₁ g₂, f = g₁ ++ g₂ ∧ g₁.shape = s ∧ g₂.shape = t := by
  induction s generalizing f with
  | nil => exact ⟨nil, f, rfl, rfl, h⟩
  | node a kids sibs _ ih =>
    cases f with
    | nil => cases h
    | node b kids' sibs' =>
      obtain ⟨i, b⟩ := b
      simp only [shape_node, node_append, node.injEq] at h
      obtain ⟨rfl, rfl, hs⟩ := h
      obtain ⟨g₁, g₂, rfl, rfl, rfl⟩ := ih hs
      exact ⟨node (i, b) kids' g₁, g₂, rfl, rfl, rfl⟩

end Forest

namespace Document

/-! ## Children -/

variable {d e : Document} {f : Forest (NodeId × Content)} {above : Option NodeId}

/-- The nodes along the sibling links are the roots of what is linked. -/
theorem Linked.siblingsFrom_eq (h : d.Linked above f) {fuel : Nat}
    (hfuel : f.roots.length ≤ fuel) : d.siblingsFrom fuel f.firstId? = f.roots := by
  induction f generalizing fuel with
  | nil => cases fuel <;> rfl
  | node a kids sibs _ ih =>
    obtain ⟨id, content⟩ := a
    obtain ⟨hn, -, hs⟩ := h
    rw [Forest.roots_node, List.length_cons] at hfuel
    obtain ⟨fuel, rfl⟩ : ∃ k, fuel = k + 1 := ⟨fuel - 1, by omega⟩
    simp only [Forest.firstId?_node, siblingsFrom, hn, Option.bind_some, Forest.roots_node]
    rw [ih hs (by omega)]

theorem Linked.length_roots_le (h : d.Linked above f) (hf : f.ids.Nodup) :
    f.roots.length ≤ d.size := by
  have hroots : f.roots.Nodup := f.roots_sublist.nodup hf
  have hlt : f.roots ⊆ List.range d.size := by
    intro id hid
    exact List.mem_range.mpr (h.lt_size (f.roots_sublist.subset hid))
  simpa using (List.subperm_of_subset hroots hlt).length_le

/-- **The children of a node** are the roots of the forest below it. -/
theorem Linked.children_eq {id : NodeId} {content : Content}
    {kids sibs : Forest (NodeId × Content)} (h : d.Linked above (.node (id, content) kids sibs))
    (hkids : kids.ids.Nodup) : d.children id = kids.roots := by
  rw [children, h.1, Option.bind_some]
  exact h.2.1.siblingsFrom_eq (h.2.1.length_roots_le hkids)

/-! ## Documents with other numbers -/

/-- A map between the nodes of two documents that keeps the document node, what every node holds,
and its children with their order. -/
structure Renumbers (σ : NodeId → NodeId) (d e : Document) : Prop where
  root : σ root = root
  content : ∀ id < d.size, e.content? (σ id) = d.content? id
  children : ∀ id < d.size, e.children (σ id) = (d.children id).map σ

/-- What is linked is told by what the nodes hold and by their children. -/
theorem Linked.eq_renumber {σ : NodeId → NodeId} {g : Forest (NodeId × Content)}
    {above' : Option NodeId} (hf : d.Linked above f) (hg : e.Linked above' g) (hfn : f.ids.Nodup)
    (hgn : g.ids.Nodup) (hcontent : ∀ id ∈ f.ids, e.content? (σ id) = d.content? id)
    (hchildren : ∀ id ∈ f.ids, e.children (σ id) = (d.children id).map σ)
    (hroots : g.roots = f.roots.map σ) : g = f.renumber σ := by
  induction f generalizing g above above' with
  | nil =>
    cases g with
    | nil => rfl
    | node b kids' sibs' => cases hroots
  | node a kids sibs ihk ihs =>
    cases g with
    | nil => cases hroots
    | node b kids' sibs' =>
      obtain ⟨id, content⟩ := a
      obtain ⟨id', content'⟩ := b
      simp only [Forest.ids_node, List.nodup_cons, List.nodup_append] at hfn hgn
      simp only [Forest.ids_node, List.mem_cons, List.mem_append] at hcontent hchildren
      simp only [Forest.roots_node, List.map_cons, List.cons.injEq] at hroots
      obtain ⟨rfl, hroots⟩ := hroots
      -- the node itself
      have hsame : content' = content := by
        have h := hcontent id (.inl rfl)
        rw [content?_of_node? hf.1, content?_of_node? hg.1] at h
        exact Option.some.inj h
      -- its children are those that the two documents tell
      have hkids : kids'.roots = kids.roots.map σ := by
        rw [← hg.children_eq hgn.2.1, ← hf.children_eq hfn.2.1]
        exact hchildren id (.inl rfl)
      rw [Forest.renumber_node, hsame,
        ihk hf.2.1 hg.2.1 hfn.2.1 hgn.2.1 (fun i hi => hcontent i (.inr (.inl hi)))
          (fun i hi => hchildren i (.inr (.inl hi))) hkids,
        ihs hf.2.2 hg.2.2 hfn.2.2.1 hgn.2.2.1 (fun i hi => hcontent i (.inr (.inr hi)))
          (fun i hi => hchildren i (.inr (.inr hi))) hroots]

/-- **Documents that renumber to each other** have the same tree but for the numbers. -/
theorem Renumbers.forest_eq {σ : NodeId → NodeId} (h : Renumbers σ d e) (hd : d.Built)
    (he : e.Built) : e.forest = d.forest.renumber σ := by
  obtain ⟨kids, htop⟩ := hd.represents.top
  obtain ⟨kids', htop'⟩ := he.represents.top
  refine hd.represents.linked.eq_renumber he.represents.linked hd.represents.nodup
    he.represents.nodup (fun id hid => ?_) (fun id hid => ?_) ?_
  · exact h.content id ((hd.represents.mem_ids id).mp hid)
  · exact h.children id ((hd.represents.mem_ids id).mp hid)
  · rw [htop, htop']
    simp [h.root]

theorem Renumbers.ids_eq {σ : NodeId → NodeId} (h : Renumbers σ d e) (hd : d.Built)
    (he : e.Built) : e.forest.ids = d.forest.ids.map σ := by
  rw [h.forest_eq hd he, Forest.ids_renumber]

/-- Every node of the one is exactly one node of the other. -/
theorem Renumbers.bijOn {σ : NodeId → NodeId} (h : Renumbers σ d e) (hd : d.Built)
    (he : e.Built) : Set.BijOn σ (Set.Iio d.size) (Set.Iio e.size) := by
  have hids := h.ids_eq hd he
  have hd' := hd.represents.mem_ids
  have he' := he.represents.mem_ids
  refine ⟨?_, ?_, ?_⟩
  · intro id hid
    rw [Set.mem_Iio, ← he', hids]
    exact List.mem_map_of_mem ((hd' id).mpr hid)
  · intro id hid other hother heq
    have hnodup := he.represents.nodup
    rw [hids] at hnodup
    exact List.inj_on_of_nodup_map hnodup ((hd' id).mpr hid) ((hd' other).mpr hother) heq
  · intro id hid
    rw [Set.mem_Iio, ← he', hids, List.mem_map] at hid
    obtain ⟨origin, horigin, rfl⟩ := hid
    exact ⟨origin, (hd' origin).mp horigin, rfl⟩

end Document

end DomScript
