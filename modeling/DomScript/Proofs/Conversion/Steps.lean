/-
DomScript.Proofs.Conversion.Steps — how many steps a walk takes.

A step leaves a level, or it visits a node and may enter the level below it. So there is an account
that every step keeps balanced: the levels left to leave and the steps taken are the levels at the
start, the nodes visited and the nodes entered together. A walk that ends has no level left, which
tells the number of its steps; and as it comes to no node twice, there are fewer of them than twice
the nodes of the document.

* `Walk.levels_step`, `Walk.levels_run` — the account of one step, and of many;
* `Walk.exists_endsAfter` — a walk that comes to an end does so after some steps, and for good;
* `walk_steps` — the walk of a whole conversion.
-/
import DomScript.Proofs.Conversion.Guarded
import DomScript.Proofs.Conversion.Reach
import Mathlib.Data.Nat.Find

namespace DomScript

namespace Walk

variable (d : Document) (o : Options)

/-- The node that the next step visits, if there is a level more after the step. -/
def stepEntered (w : Walk) : List NodeId :=
  match w.levels with
  | some id :: _ => if w.levels.length < (w.step d o).levels.length then [id] else []
  | _ => []

/-- The nodes entered in so many steps. -/
def entered : Nat → Walk → List NodeId
  | 0, _ => []
  | n + 1, w => w.stepEntered d o ++ entered n (w.step d o)

/-- The walk is over after `n` steps, and not before. -/
def EndsAfter (n : Nat) (w : Walk) : Prop :=
  ∀ m, (run d o m w).levels = [] ↔ n ≤ m

variable {d o} {w : Walk}

/-! ## The account of the levels -/

/-- The step that visits a node enters it if the walk descends into it. -/
theorem stepEntered_visit {id : NodeId} {node : Node} (hn : d.node? id = some node)
    (outer : List (Option NodeId)) (p : Progress) :
    stepEntered d o ⟨some id :: outer, p⟩ =
      if o.filters.descends node.content then [id] else [] := by
  simp only [stepEntered, step, hn]
  split
  · exact if_pos (Nat.lt_succ_self _)
  · exact if_neg (Nat.lt_irrefl _)

/-- **One step** of a walk that is not over leaves a level or visits a node, and enters a level or
not. -/
theorem levels_step (h : w.InRange d) (hbusy : w.levels ≠ []) :
    (w.step d o).levels.length + 1 =
      w.levels.length + (w.stepParts d o).length + (w.stepEntered d o).length := by
  obtain ⟨levels, p⟩ := w
  match levels with
  | [] => exact absurd rfl hbusy
  | none :: outer => rfl
  | some id :: outer =>
    obtain ⟨node, hn⟩ := Document.node?_isSome (h id List.mem_cons_self)
    rw [stepEntered_visit hn]
    simp only [step, stepParts, hn]
    split
    · rfl
    · rfl

/-- **Any number of steps** of a walk that is not over before. -/
theorem levels_run (hd : d.Built) (h : w.InRange d) (n : Nat)
    (hbusy : ∀ m < n, (run d o m w).levels ≠ []) :
    (run d o n w).levels.length + n =
      w.levels.length + (parts d o n w).length + (entered d o n w).length := by
  induction n generalizing w with
  | zero => rfl
  | succ n ih =>
    have hfirst : w.levels ≠ [] := hbusy 0 (Nat.succ_pos n)
    have hrun : ∀ m, run d o (m + 1) w = run d o m (w.step d o) := by
      intro m
      rw [run, if_neg (mt List.isEmpty_iff.mp hfirst)]
    have hstep := levels_step (o := o) h hfirst
    have hrest := ih (h.step (o := o) hd) fun m hm =>
      hrun m ▸ hbusy (m + 1) (Nat.succ_lt_succ hm)
    rw [hrun, parts, entered, List.length_append, List.length_append]
    omega

/-! ## The end of a walk -/

/-- A walk that is over goes nowhere, -/
theorem run_over (h : w.levels = []) (n : Nat) : run d o n w = w := by
  obtain ⟨levels, p⟩ := w
  obtain rfl : levels = [] := h
  exact run_nil n p

/-- and visits nothing. -/
theorem parts_over (h : w.levels = []) (n : Nat) : parts d o n w = [] := by
  obtain ⟨levels, p⟩ := w
  obtain rfl : levels = [] := h
  exact parts_nil n p

theorem run_add (n m : Nat) (w : Walk) : run d o (n + m) w = run d o m (run d o n w) := by
  induction n generalizing w with
  | zero => rw [Nat.zero_add, run]
  | succ n ih =>
    rw [Nat.succ_add, run, run]
    split
    · rename_i hover
      exact (run_over (List.isEmpty_iff.mp hover) m).symm
    · exact ih (w.step d o)

/-- What a walk visits in more steps, it visits when it goes on. -/
theorem parts_add (n m : Nat) (w : Walk) :
    parts d o (n + m) w = parts d o n w ++ parts d o m (run d o n w) := by
  induction n generalizing w with
  | zero => rw [Nat.zero_add, run, parts, List.nil_append]
  | succ n ih =>
    by_cases hover : w.levels = []
    · rw [parts_over hover, parts_over hover, run_over hover, parts_over hover, List.append_nil]
    · rw [Nat.succ_add, parts, parts, run, if_neg (mt List.isEmpty_iff.mp hover), List.append_assoc,
        ih]

/-- **A walk that comes to an end** does so after a number of steps, and for good. -/
theorem exists_endsAfter {m : Nat} (h : (run d o m w).levels = []) :
    ∃ n ≤ m, EndsAfter d o n w := by
  have hsome : ∃ n, (run d o n w).levels = [] := ⟨m, h⟩
  refine ⟨Nat.find hsome, Nat.find_min' hsome h, fun k => ⟨Nat.find_min' hsome, fun hk => ?_⟩⟩
  obtain ⟨more, rfl⟩ := Nat.exists_eq_add_of_le hk
  rw [run_add, run_over (Nat.find_spec hsome)]
  exact Nat.find_spec hsome

/-- After the end nothing is visited. -/
theorem EndsAfter.parts_eq {n m : Nat} (h : EndsAfter d o n w) (hnm : n ≤ m) :
    parts d o m w = parts d o n w := by
  obtain ⟨more, rfl⟩ := Nat.exists_eq_add_of_le hnm
  rw [parts_add, parts_over ((h n).mpr (Nat.le_refl n)), List.append_nil]

/-- **The number of steps**: one for every node visited, and one for leaving every level, the first
one and those of the nodes entered. -/
theorem EndsAfter.eq_add {n : Nat} (h : EndsAfter d o n w) (hd : d.Built) (hw : w.InRange d)
    (hfirst : w.levels.length = 1) :
    n = (parts d o n w).length + (entered d o n w).length + 1 := by
  have hover : (run d o n w).levels = [] := (h n).mpr (Nat.le_refl n)
  have hcount := levels_run (o := o) hd hw n fun m hm hm' =>
    Nat.not_le_of_lt hm ((h m).mp hm')
  rw [hover, hfirst, List.length_nil] at hcount
  omega

/-! ## The nodes entered -/

theorem stepEntered_sublist (w : Walk) :
    (w.stepEntered d o).Sublist ((w.stepParts d o).map Prod.fst) := by
  obtain ⟨levels, p⟩ := w
  match levels with
  | [] => exact .slnil
  | none :: outer => exact .slnil
  | some id :: outer =>
    simp only [stepEntered, stepParts, List.map_cons, List.map_nil]
    split
    · exact List.Sublist.refl _
    · exact List.nil_sublist _

theorem entered_sublist (n : Nat) (w : Walk) :
    (entered d o n w).Sublist ((parts d o n w).map Prod.fst) := by
  induction n generalizing w with
  | zero => exact .slnil
  | succ n ih =>
    rw [entered, parts, List.map_append]
    exact (stepEntered_sublist w).append (ih _)

theorem mem_stepEntered_iff (h : w.InRange d) {id : NodeId} :
    id ∈ w.stepEntered d o ↔ id ∈ (w.stepParts d o).map Prod.fst ∧
      ∃ content, d.content? id = some content ∧ o.filters.Opens content := by
  obtain ⟨levels, p⟩ := w
  match levels with
  | [] => simp [stepEntered, stepParts]
  | none :: outer => simp [stepEntered, stepParts]
  | some i :: outer =>
    obtain ⟨node, hn⟩ := Document.node?_isSome (h i List.mem_cons_self)
    have hc : d.content? i = some node.content := Document.content?_of_node? hn
    rw [stepEntered_visit hn]
    simp only [stepParts, List.map_cons, List.map_nil, List.mem_singleton,
      ← o.filters.descends_iff]
    split
    · rename_i hdesc
      rw [List.mem_singleton, iff_self_and]
      rintro rfl
      exact ⟨node.content, hc, hdesc⟩
    · rename_i hdesc
      refine iff_of_false List.not_mem_nil ?_
      rintro ⟨rfl, content, hcontent, hopens⟩
      obtain rfl := Option.some.inj (hc.symm.trans hcontent)
      exact hdesc hopens

/-- **The nodes entered** are those of the nodes visited that the filters open. -/
theorem mem_entered_iff (hd : d.Built) (h : w.InRange d) (n : Nat) {id : NodeId} :
    id ∈ entered d o n w ↔ id ∈ (parts d o n w).map Prod.fst ∧
      ∃ content, d.content? id = some content ∧ o.filters.Opens content := by
  induction n generalizing w with
  | zero => simp [entered, parts]
  | succ n ih =>
    rw [entered, parts, List.map_append, List.mem_append, List.mem_append, mem_stepEntered_iff h,
      ih (h.step hd), or_and_right]

end Walk

/-! ## Whole documents -/

/-- **The walk ends, and in linear steps.** On every document that was built the walk from the
document node is over after a number of steps, and stays so: one step for every node it visits, one
for every node it enters, and one. It visits the nodes of the conversion, no node twice, and enters
those of them that are neither texts nor ignored elements. So there are fewer steps than twice the
nodes of the document. -/
theorem walk_steps {d : Document} (hd : d.Built) (o : Options) (names : VariableNames) :
    let start := Walk.start d names
    ∃ n, Walk.EndsAfter d o n start ∧
      let visited := (Walk.parts d o n start).map Prod.fst
      let entered := Walk.entered d o n start
      n = visited.length + entered.length + 1 ∧ n + 1 ≤ 2 * d.size ∧
        visited = (d.visits o names).map Prod.fst ∧ visited.Nodup ∧ entered.Nodup ∧
        ∀ id, id ∈ entered ↔ id ∈ visited ∧
          ∃ content, d.content? id = some content ∧ o.filters.Opens content := by
  intro start
  have hover : (Walk.run d o (2 * d.size) start).levels = [] := by rw [(hd.run_start o names).1]
  obtain ⟨n, hn, hend⟩ := Walk.exists_endsAfter hover
  have hrange : start.InRange d := Walk.InRange.start hd names
  have hsteps := hend.eq_add hd hrange rfl
  have hparts : Walk.parts d o n start = d.visits o names := (hend.parts_eq hn).symm
  have hvisited : ((Walk.parts d o n start).map Prod.fst).Sublist d.trees.ids :=
    hparts ▸ hd.visits_sublist o names
  have hentered := Walk.entered_sublist (d := d) (o := o) n start
  have hlength := hd.length_trees
  have hle := hvisited.length_le
  have hle' := hentered.length_le
  refine ⟨n, hend, ?_, ?_, by rw [hparts], hvisited.nodup hd.nodup_ids.2,
    hentered.nodup (hvisited.nodup hd.nodup_ids.2), fun id => Walk.mem_entered_iff hd hrange n⟩
  · rwa [List.length_map]
  · rw [List.length_map] at hle hle'
    omega

/-- Ten of the twelve nodes are visited, five of them are entered, and the head is not. -/
theorem walk_steps_specimen :
    let d := Document.specimen
    let start := Walk.start d (.new "_")
    d.Built ∧ Walk.EndsAfter d .default 16 start ∧
      (Walk.parts d .default 16 start).map Prod.fst = [1, 2, 3, 4, 5, 6, 7, 8, 9, 10] ∧
      Walk.entered d .default 16 start = [1, 2, 3, 6, 7] ∧ d.size = 12 := by
  intro d start
  obtain ⟨n, hend, -⟩ := walk_steps Document.specimen_built .default (.new "_")
  have hover : (Walk.run d .default 16 start).levels = [] := by decide +kernel
  have hbusy : (Walk.run d .default 15 start).levels ≠ [] := by decide +kernel
  have hle : n ≤ 16 := (hend 16).mp hover
  have hgt : ¬ n ≤ 15 := mt (hend 15).mpr hbusy
  obtain rfl : n = 16 := by omega
  exact ⟨Document.specimen_built, hend, by decide +kernel, by decide +kernel, by decide +kernel⟩

end DomScript
