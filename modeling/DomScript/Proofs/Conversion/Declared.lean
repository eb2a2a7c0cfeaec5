/-
DomScript.Proofs.Conversion.Declared — the variables that a conversion declares.

A variable is declared where an element or a text node is created. Every visit declares the next
name or none at all, so that a conversion declares names in a row and leaves the sequence behind
the last of them. This holds of any array of nodes, whether it is a tree or not.

* `Yield.ofNode_declared` — what one visit declares;
* `Document.convert_declared` — what a conversion declares.
-/
import DomScript.Proofs.Conversion.Recursion
import DomScript.Proofs.Dom.Execution
import DomScript.Proofs.VariableNames

namespace DomScript

/-! ## Declared variables -/

/-- The variables that a script declares, in order. -/
def declaredVars (script : List Statement) : List String :=
  script.filterMap Statement.creates?

@[simp] theorem declaredVars_nil : declaredVars [] = [] := rfl

theorem declaredVars_append (script more : List Statement) :
    declaredVars (script ++ more) = declaredVars script ++ declaredVars more :=
  List.filterMap_append

theorem declaredVars_createElement (var : String) (tag : Tag) (script : List Statement) :
    declaredVars (.createElement var tag :: script) = var :: declaredVars script := rfl

theorem declaredVars_appendChild (parent child : String) :
    declaredVars [.appendChild parent child] = [] := rfl

/-- Attributes declare nothing. -/
theorem declaredVars_attributes (var : String) (attributes : List Attribute) :
    declaredVars (attributes.flatMap (·.statements var)) = [] := by
  rw [Attribute.flatMap_statements]
  refine List.filterMap_eq_nil_iff.mpr fun s hs => ?_
  obtain ⟨setting, -, rfl⟩ := List.mem_map.mp hs
  cases setting <;> rfl

/-- The statements of an element declare its variable. -/
theorem declaredVars_element (var : String) (tag : Tag) (attributes : List Attribute)
    (parent : String) :
    declaredVars (.createElement var tag :: attributes.flatMap (·.statements var) ++
      [.appendChild parent var]) = [var] := by
  rw [List.cons_append, declaredVars_createElement, declaredVars_append, declaredVars_attributes,
    declaredVars_appendChild]
  rfl

/-! ## One visit -/

/-- **A visit** declares nothing and leaves the names as they are, or it declares the next name. -/
theorem Yield.ofNode_declared (o : Options) (parent? : Option String) (inScript : Bool)
    (id : NodeId) (content : Content) (names : VariableNames) :
    let y := ofNode o parent? inScript id content names
    (declaredVars y.script = [] ∧ y.names = names) ∨
      (declaredVars y.script = [names.advance.name] ∧ y.names = names.advance) := by
  cases content with
  | text payload =>
    rcases ofText_cases o parent? inScript id payload names with
      ⟨events, h, -⟩ | ⟨-, -, h⟩ | ⟨-, -, -, h⟩ <;>
      simp only [ofNode, h, single_script]
    · exact .inl ⟨rfl, rfl⟩
    · exact .inl ⟨rfl, rfl⟩
    · exact .inr ⟨rfl, rfl⟩
  | element tag attributes =>
    simp only [ofNode, ofElement]
    split
    · right
      refine ⟨?_, rfl⟩
      rw [single_script, declaredVars_element]
      rfl
    · exact .inl ⟨by simp, rfl⟩
  | _ => exact .inl ⟨by simp [ofNode], rfl⟩

/-! ## A whole walk -/

/-- The script so far declares the first names of `start`, and the names go on behind them. -/
def Progress.Declares (start : VariableNames) (p : Progress) : Prop :=
  ∃ n, start.take n = (declaredVars p.script.toList, p.names)

theorem Progress.Declares.visit {start : VariableNames} {p : Progress} (h : p.Declares start)
    (d : Document) (o : Options) (id : NodeId) (content : Content) :
    (visit d o id content p).Declares start := by
  obtain ⟨n, hn⟩ := h
  rw [visit_eq_add rfl rfl]
  have hscript : ∀ y, declaredVars (p.add y).script.toList =
      declaredVars p.script.toList ++ declaredVars y.script := by
    intro y
    rw [← declaredVars_append, add, Array.toList_appendList]
  rcases Yield.ofNode_declared o (p.parentVariable? d id) (d.inScript id) id content p.names with
    ⟨hdeclared, hnames⟩ | ⟨hdeclared, hnames⟩
  · exact ⟨n, by rw [hn, hscript, hdeclared, List.append_nil, add_names, hnames]⟩
  · refine ⟨n + 1, ?_⟩
    have hskip : start.skip (n + 1) = p.names.advance := by
      rw [VariableNames.take_eq] at hn
      rw [VariableNames.skip_succ, (Prod.mk.inj hn).2]
    rw [VariableNames.take_succ, hn, hskip, hscript, hdeclared, add_names, hnames]

section Walk

variable {d : Document} {o : Options} {P : Progress → Prop}
  (hvisit : ∀ id content p, P p → P (visit d o id content p)) {w : Walk} (h : P w.progress)

include hvisit h

/-- What every visit preserves, a step preserves, -/
theorem Walk.step_keeps : P (w.step d o).progress := by
  unfold step
  split
  · exact h
  · exact h
  · split
    · exact h
    · exact hvisit _ _ _ h

/-- and so does a walk. -/
theorem Walk.run_keeps (fuel : Nat) : P (run d o fuel w).progress := by
  induction fuel generalizing w with
  | zero => exact h
  | succ fuel ih =>
    unfold run
    split
    · exact h
    · exact ih (step_keeps hvisit h)

end Walk

/-- **A conversion declares names in a row**: the next ones of the sequence, which goes on behind
the last of them. -/
theorem Document.convert_declared (d : Document) (o : Options) (names : VariableNames) :
    ∃ n, names.take n = (declaredVars (d.convert o names).script, (d.convert o names).names) :=
  Walk.run_keeps (P := Progress.Declares names) (fun id content _ h => h.visit d o id content)
    ⟨0, rfl⟩ (2 * d.size)

end DomScript
