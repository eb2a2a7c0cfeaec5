/-
DomScript.Proofs.Conversion.Membership — filters act through their members only.

A tag set is a list, and its order and repetitions can be read back. A conversion never does: all
that it asks of the filters is whether they admit a tag and whether they ignore it. Filters that
give the same answers are therefore interchangeable at every step of the walk, over any array of
nodes, and filters that differ in an answer convert some document differently.

* `actsLike_of_members` — what is told by the members, and which members count;
* `Walk.run_congr` — filters that act alike take every walk the same way;
* `convert_filters` — and so does a conversion in a session;
* `actsLike_iff` — filters convert all documents alike iff they act alike.
-/
import Mathlib.Algebra.Order.BigOperators.Group.List
import Mathlib.Algebra.Order.Group.Nat
import DomScript.Proofs.Conversion.Reach

namespace DomScript

/-! ## Filters that act alike -/

/-- Two sets with the same members, whatever their order and repetitions are. -/
def TagSet.SameMembers (s t : TagSet) : Prop :=
  ∀ tag, tag ∈ s.tags ↔ tag ∈ t.tags

namespace Filters

/-- Filters that admit the same tags and ignore the same tags. -/
structure ActsLike (f g : Filters) : Prop where
  admits : ∀ tag, f.Admits tag ↔ g.Admits tag
  ignores : f.ignores.SameMembers g.ignores

variable {f g : Filters}

/-- **Membership is enough.** While both have included tags, these decide alone; if neither has any,
the excluded ones do. -/
theorem actsLike_of_members (hignores : f.ignores.SameMembers g.ignores)
    (hcreated :
      (f.includes.tags ≠ [] ∧ g.includes.tags ≠ [] ∧ f.includes.SameMembers g.includes) ∨
      (f.includes.tags = [] ∧ g.includes.tags = [] ∧ f.excludes.SameMembers g.excludes)) :
    f.ActsLike g := by
  refine ⟨fun tag => ?_, hignores⟩
  unfold Admits
  rcases hcreated with ⟨hf, hg, hsame⟩ | ⟨hf, hg, hsame⟩
  · rw [if_neg hf, if_neg hg]
    exact hsame tag
  · rw [if_pos hf, if_pos hg]
    exact not_congr (hsame tag)

theorem ActsLike.isEligible_eq (h : f.ActsLike g) (tag : Tag) :
    f.isEligible (some tag) = g.isEligible (some tag) := by
  rw [Bool.eq_iff_iff, isEligible_iff, isEligible_iff]
  exact h.admits tag

theorem ActsLike.descends_eq (h : f.ActsLike g) (content : Content) :
    f.descends content = g.descends content := by
  cases content with
  | element tag attributes =>
    have hiff := h.ignores tag
    rw [Bool.eq_iff_iff, descends_iff, descends_iff]
    simp [Opens, hiff]
  | _ => rfl

end Filters

/-! ## The walk -/

section Walk

variable {o : Options} {f g : Filters} (h : f.ActsLike g) (d : Document)

include h

theorem visit_congr (id : NodeId) (content : Content) (p : Progress) :
    visit d { o with filters := f } id content p =
      visit d { o with filters := g } id content p := by
  cases content with
  | element tag attributes =>
    unfold visit visitElement
    simp only [h.isEligible_eq tag]
  | _ => rfl

/-- **One step** is the same under both filters, -/
theorem Walk.step_congr (w : Walk) :
    w.step d { o with filters := f } = w.step d { o with filters := g } := by
  unfold step
  split
  · rfl
  · rfl
  · split
    · rfl
    · rename_i node _
      simp only [visit_congr h, h.descends_eq node.content]

/-- and so are any number of steps. -/
theorem Walk.run_congr (n : Nat) (w : Walk) :
    run d { o with filters := f } n w = run d { o with filters := g } n w := by
  induction n generalizing w with
  | zero => rfl
  | succ n ih =>
    unfold run
    rw [step_congr h, ih]

theorem Document.convert_congr (names : VariableNames) :
    d.convert { o with filters := f } names = d.convert { o with filters := g } names := by
  unfold convert
  simp only [Walk.run_congr h]

end Walk

/-! ## Sessions -/

/-- The session with other filters. -/
def Session.withFilters (s : Session) (f : Filters) : Session :=
  { s with options := { s.options with filters := f } }

/-- **Filters act only through membership, and included tags silence the excluded ones.** Let two
filters ignore the same tags, and let either both include some tags, and the same, or both include
none and exclude the same. Then in every session they convert every document alike: the text, the
bindings, the names and the reports are the same, and so is the session afterwards. -/
theorem convert_filters (d : Document) (s : Session) {f g : Filters}
    (hignores : f.ignores.SameMembers g.ignores)
    (hcreated :
      (f.includes.tags ≠ [] ∧ g.includes.tags ≠ [] ∧ f.includes.SameMembers g.includes) ∨
      (f.includes.tags = [] ∧ g.includes.tags = [] ∧ f.excludes.SameMembers g.excludes)) :
    ((s.withFilters f).convert d).1 = ((s.withFilters g).convert d).1 ∧
      ((s.withFilters f).convert d).2 = ((s.withFilters g).convert d).2.withFilters f := by
  have hlike : f.ActsLike g := Filters.actsLike_of_members hignores hcreated
  have hconvert : d.convert { s.options with filters := f } s.names =
      d.convert { s.options with filters := g } s.names := Document.convert_congr hlike d s.names
  unfold Session.withFilters Session.convert
  simp only [hconvert, and_self]

/-- Order and repetitions do not count, nor what is excluded beside included tags. -/
theorem convert_filters_specimen :
    let s := Session.new .default
    let d := Document.specimen
    let f : Filters := ⟨⟨[⟨"div"⟩, ⟨"em"⟩]⟩, ⟨[⟨"em"⟩]⟩, ⟨[.head, .body]⟩⟩
    let g : Filters := ⟨⟨[⟨"em"⟩, ⟨"div"⟩, ⟨"em"⟩]⟩, .empty, ⟨[.body, .head, .body]⟩⟩
    f.ignores.SameMembers g.ignores ∧
      f.includes.tags ≠ [] ∧ g.includes.tags ≠ [] ∧ f.includes.SameMembers g.includes ∧
      ((s.withFilters f).convert d).1 = ((s.withFilters g).convert d).1 := by
  intro s d f g
  have hignores : f.ignores.SameMembers g.ignores := by
    intro tag
    simp only [f, g, List.mem_cons, List.not_mem_nil, or_false]
    grind
  have hincludes : f.includes.SameMembers g.includes := by
    intro tag
    simp only [f, g, List.mem_cons, List.not_mem_nil, or_false]
    grind
  have hf : f.includes.tags ≠ [] := by simp [f]
  have hg : g.includes.tags ≠ [] := by simp [g]
  exact ⟨hignores, hf, hg, hincludes,
    (convert_filters d s hignores (.inl ⟨hf, hg, hincludes⟩)).1⟩

/-! ## What the conversions tell of the filters -/

/-- No filters keep everything out. -/
theorem Filters.exists_admits (f : Filters) : ∃ tag, f.Admits tag := by
  unfold Admits
  by_cases h : f.includes.tags = []
  · -- a name longer than all the excluded ones
    let lengths := f.excludes.tags.map fun tag => tag.name.length
    refine ⟨⟨.ofList (List.replicate (lengths.sum + 1) 'a')⟩, ?_⟩
    rw [if_pos h]
    intro hmem
    have hle := List.le_sum_of_mem (List.mem_map_of_mem (f := fun tag => tag.name.length) hmem)
    simp only [String.length_ofList, List.length_replicate] at hle
    exact Nat.not_succ_le_self _ hle
  · obtain ⟨tag, tags, hcons⟩ := List.exists_cons_of_ne_nil h
    exact ⟨tag, by rw [if_neg h, hcons]; exact List.mem_cons_self⟩

/-- A document with one element below another. -/
def Document.nested (outer inner : Tag) : Document :=
  (Document.empty.append 0 (.element outer [])).append 1 (.element inner [])

section Nested

variable (f : Filters) (outer inner : Tag)

theorem Document.nested_built : (nested outer inner).Built :=
  .append (.append .empty (by decide) (by simp)) (Nat.lt_succ_self 1) (by simp)

theorem Document.nested_outer :
    (nested outer inner).Admitted f 1 ∧ (nested outer inner).Reached f 1 ↔ f.Admits outer := by
  have hcontent : (nested outer inner).content? 1 = some (.element outer []) := rfl
  have hancestors : (nested outer inner).ancestors 1 = [0] := rfl
  have hroot : (nested outer inner).content? 0 = some .document := rfl
  simp [Admitted, Reached, hcontent, hancestors, hroot, Filters.Opens]

theorem Document.nested_inner :
    (nested outer inner).Admitted f 2 ∧ (nested outer inner).Reached f 2 ↔
      f.Admits inner ∧ outer ∉ f.ignores.tags := by
  have hcontent : (nested outer inner).content? 2 = some (.element inner []) := rfl
  have hancestors : (nested outer inner).ancestors 2 = [1, 0] := rfl
  have habove : (nested outer inner).content? 1 = some (.element outer []) := rfl
  have hroot : (nested outer inner).content? 0 = some .document := rfl
  simp [Admitted, Reached, hcontent, hancestors, habove, hroot, Filters.Opens]

end Nested

/-- **The filters show.** In any session two filters convert all documents alike iff they admit the
same tags and ignore the same tags. -/
theorem Filters.actsLike_iff (s : Session) {f g : Filters} :
    f.ActsLike g ↔ ∀ d : Document, d.Built →
      ((s.withFilters f).convert d).1 = ((s.withFilters g).convert d).1 := by
  constructor
  · intro h d _
    exact Document.convert_congr h d s.names
  intro h
  -- both bind the same nodes of every document
  have hbound : ∀ d : Document, d.Built → ∀ id,
      d.Admitted f id ∧ d.Reached f id ↔ d.Admitted g id ∧ d.Reached g id := by
    intro d hd id
    have hids := fun filters => (hd.bound_ids { s.options with filters } s.names).2 id
    have hsame : d.convert { s.options with filters := f } s.names =
        d.convert { s.options with filters := g } s.names := h d hd
    rw [← hids f, hsame]
    exact hids g
  have hadmits : ∀ tag, f.Admits tag ↔ g.Admits tag := by
    intro tag
    have hnode := hbound _ (Document.nested_built tag tag) 1
    rwa [Document.nested_outer, Document.nested_outer] at hnode
  refine ⟨hadmits, fun tag => ?_⟩
  -- whether a tag is ignored shows at an element below it that both admit
  obtain ⟨inner, hinner⟩ := f.exists_admits
  have hnode := hbound _ (Document.nested_built tag inner) 2
  rw [Document.nested_inner, Document.nested_inner, and_iff_right hinner,
    and_iff_right ((hadmits inner).mp hinner)] at hnode
  exact not_iff_not.mp hnode

end DomScript
