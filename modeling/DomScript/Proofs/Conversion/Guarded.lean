/-
DomScript.Proofs.Conversion.Guarded — a conversion never stops half-way.

`Document.convert` passes over a number without a node, drops characters that may not be there, and
counts bytes without looking back. The guarded conversion of this module makes the same visits but
stops with a `Fault` wherever one of these would matter: at a number that is no node of the
document, at a cut in a key that is not between two characters, at a buffer that got shorter, and at
a loop that does not end in time. On documents that were built it never does, and gives what the
conversion gives.

* `Bindings.nearest_eq` — the way up stays inside the document and ends;
* `Attribute.guardedStatements_eq` — the keys that are cut can be cut there;
* `Walk.guardedStep_eq`, `Walk.guardedRun_eq` — one step of the walk, and all of them;
* `convert_unfaulted` — a whole conversion in a session.
-/
import DomScript.Proofs.Conversion.Sequence
import DomScript.Proofs.Script.Events
import DomScript.Proofs.Text.Cut

namespace DomScript

/-! ## Faults -/

/-- What would stop a conversion: a number without a node, a key that cannot be cut behind a number
of bytes, a buffer that is shorter than it was before, or a loop without end. -/
inductive Fault where
  | noNode (id : NodeId)
  | badCut (key : String) (bytes : Nat)
  | shrunk (size before : Nat)
  | endless
  deriving DecidableEq

/-- What comes behind a part without a fault goes on with its result. -/
theorem Fault.ok_bind {α β : Type} (a : α) (next : α → Except Fault β) :
    (Except.ok a >>= next) = next a := rfl

/-- The node with a number. -/
def Document.fetch (d : Document) (id : NodeId) : Except Fault Node :=
  match d.node? id with
  | some node => .ok node
  | none => .error (.noNode id)

/-- What a key holds behind its first bytes. -/
def Attribute.cutKey (key : String) (bytes : Nat) : Except Fault (List Char) :=
  match Text.cut? bytes key.toList with
  | some rest => .ok rest
  | none => .error (.badCut key bytes)

/-- By how much a buffer has grown. -/
def Output.growth (o : Output) (before : Nat) : Except Fault Nat :=
  if before ≤ o.size then .ok (o.size - before) else .error (.shrunk o.size before)

/-! ## The guarded conversion -/

/-- The statements that set an attribute. Data keys are cut behind their mark, event keys behind two
bytes. -/
def Attribute.guardedStatements (var : String) (a : Attribute) : Except Fault (List Statement) :=
  match Rule.forKey a.key with
  | .dataset => do
    let name ← cutKey a.key 5
    pure [.assign var ["dataset", .ofList (Text.camelChars name)] (.text a.value)]
  | .event => do
    let name ← cutKey a.key 2
    pure [.listen var (.ofList name) a.value]
  | _ => pure (a.statements var)

/-- The variable of the nearest bound node from `next?` on upwards. Every node on the way is
fetched. -/
def Bindings.nearest (b : Bindings) (d : Document) : Nat → Option NodeId →
    Except Fault (Option String)
  | _, none => pure none
  | 0, some _ => throw .endless
  | fuel + 1, some id => do
    let node ← d.fetch id
    match b.get? id with
    | some var => pure (some var)
    | none => b.nearest d fuel node.parent

/-- Whether the node above is a script element. -/
def Node.guardedInScript (node : Node) (d : Document) : Except Fault Bool :=
  match node.parent with
  | none => pure false
  | some above => do
    let parent ← d.fetch above
    pure (parent.content.tag? == some .script)

/-- Visit a text node. -/
def guardedVisitText (d : Document) (o : Options) (id : NodeId) (node : Node) (payload : String)
    (p : Progress) : Except Fault Progress :=
  let trimmed := Text.trim payload.toList
  let text := String.ofList trimmed
  if trimmed.isEmpty then pure p
  else do
    let inScript ← node.guardedInScript d
    if inScript then pure (p.emit [.code text])
    else do
      let parent? ← p.bindings.nearest d id node.parent
      match parent? with
      | some parent => pure (p.createText parent text)
      | none =>
        pure (if o.keepRootText then p.createText o.defaultParent text else p.report (.dropping id))

/-- Visit an element. -/
def guardedVisitElement (d : Document) (o : Options) (id : NodeId) (node : Node) (tag : Tag)
    (attributes : List Attribute) (p : Progress) : Except Fault Progress :=
  if o.filters.isEligible (some tag) then do
    let (var, names) := p.names.generate
    let p := { p with names }.report (.emitting id tag var)
    let settings ← attributes.mapM (·.guardedStatements var)
    let p := p.emit (.createElement var tag :: settings.flatten)
    let parent? ← p.bindings.nearest d id node.parent
    let p := p.emit [.appendChild (parent?.getD o.defaultParent) var]
    pure { p with bindings := p.bindings.insert id var }
  else pure p

/-- Visit a node. -/
def guardedVisit (d : Document) (o : Options) (id : NodeId) (node : Node) (p : Progress) :
    Except Fault Progress :=
  match node.content with
  | .text payload => guardedVisitText d o id node payload p
  | .element tag attributes => guardedVisitElement d o id node tag attributes p
  | _ => pure p

namespace Walk

/-- One step of the walk. -/
def guardedStep (d : Document) (o : Options) (w : Walk) : Except Fault Walk :=
  match w.levels with
  | [] => pure w
  | none :: outer => pure { w with levels := outer }
  | some id :: outer => do
    let node ← d.fetch id
    let progress ← guardedVisit d o id node w.progress
    let rest := node.nextSibling :: outer
    pure
      { levels := if o.filters.descends node.content then node.firstChild :: rest else rest
        progress }

/-- Steps until no level is left. -/
def guardedRun (d : Document) (o : Options) : Nat → Walk → Except Fault Progress
  | 0, w => if w.levels.isEmpty then pure w.progress else throw .endless
  | fuel + 1, w =>
    if w.levels.isEmpty then pure w.progress
    else do
      let w ← w.guardedStep d o
      guardedRun d o fuel w

end Walk

/-- Convert a document in a session, statement by statement onto the buffer: the bindings, the
reports, and the session afterwards. -/
def Session.guardedConvert (s : Session) (d : Document) :
    Except Fault (Bindings × List Event × Session) := do
  let before := s.output.size
  let top ← d.fetch Document.root
  let p ← Walk.guardedRun d s.options (2 * d.size) ⟨[top.firstChild], .start s.names⟩
  let output := p.script.toList.foldl (fun o statement => o.line statement.render) s.output
  let bytes ← output.growth before
  pure (p.bindings, p.events.toList ++ [.converted d.size p.bindings.size bytes],
    { s with names := p.names, output })

/-! ## Reading the document -/

section Reading

variable {d : Document} (hd : d.Built) {id : NodeId} {node : Node} (hn : d.node? id = some node)

theorem Document.fetch_eq {d : Document} {id : NodeId} {node : Node}
    (hn : d.node? id = some node) : d.fetch id = .ok node := by
  rw [fetch, hn]

include hd

/-- The way up stays inside the document and is shorter than its number of nodes. -/
theorem Bindings.nearest_eq (b : Bindings) {fuel start : Nat} (hfuel : start < fuel)
    (hstart : start < d.size) :
    b.nearest d fuel (some start) =
      .ok ((d.ancestorsFrom fuel (some start)).findSome? b.get?) := by
  induction fuel generalizing start with
  | zero => omega
  | succ fuel ih =>
    obtain ⟨node, hn⟩ := Document.node?_isSome hstart
    simp only [nearest, Document.fetch_eq hn, Fault.ok_bind, Document.ancestorsFrom, hn,
      Option.bind_some, List.findSome?_cons]
    cases hget : b.get? start with
    | some var => rfl
    | none =>
      cases habove : node.parent with
      | none => cases fuel <;> rfl
      | some above =>
        have hlt := hd.parent_lt hn habove
        exact ih (Nat.lt_of_lt_of_le hlt (Nat.le_of_lt_succ hfuel))
          ((hd.links_lt hn).2.2 above habove)

include hn

theorem Progress.nearest_eq (p : Progress) :
    p.bindings.nearest d id node.parent = .ok (p.parentVariable? d id) := by
  rw [parentVariable?, Document.ancestors, hn, Option.bind_some]
  cases habove : node.parent with
  | none => cases id <;> rfl
  | some above =>
    exact p.bindings.nearest_eq hd (hd.parent_lt hn habove) ((hd.links_lt hn).2.2 above habove)

theorem Node.guardedInScript_eq : node.guardedInScript d = .ok (d.inScript id) := by
  rw [Document.inScript_eq hn, guardedInScript, Document.scriptBelow]
  cases habove : node.parent with
  | none => rfl
  | some above =>
    obtain ⟨parent, hparent⟩ := Document.node?_isSome ((hd.links_lt hn).2.2 above habove)
    simp only [Document.fetch_eq hparent, Option.bind_some, Document.content?_of_node? hparent]
    rfl

end Reading

/-! ## Keys -/

namespace Attribute

theorem cutKey_eq {key : String} {n : Nat} (hn : n ≤ key.toList.length)
    (h : ∀ c ∈ key.toList.take n, c.val ≤ 127) : cutKey key n = .ok (key.toList.drop n) := by
  rw [cutKey, Text.cut?_eq_drop hn h]

/-- What folds to an ASCII character is one. -/
theorem val_le_of_toLower {c : Char} (h : c.toLower.val ≤ 127) : c.val ≤ 127 := by
  unfold Char.toLower at h
  split at h
  · rename_i hupper
    exact UInt32.le_trans hupper.2 (by decide)
  · exact h

/-- **Event keys** are ASCII, in whatever letter case, and have two letters at least. -/
theorem ascii_of_isEventKey {key : String} (h : isEventKey key = true) :
    2 ≤ key.toList.length ∧ ∀ c ∈ key.toList, c.val ≤ 127 := by
  obtain ⟨event, hevent, heq⟩ := exists_event h
  obtain ⟨hfront, hletters⟩ := eventKeys_spelling event hevent
  constructor
  · have hlength : min 2 (key.toList.map Char.toLower).length = 2 := by
      rw [← List.length_take, ← heq, hfront]
      rfl
    rw [List.length_map] at hlength
    omega
  · intro c hc
    have hlower : c.toLower.isLower = true :=
      hletters _ (heq ▸ List.mem_map_of_mem (f := Char.toLower) hc)
    exact val_le_of_toLower (Text.isLower_elim (P := fun c => c.val ≤ 127) (by decide) hlower)

/-- **The keys that are cut can be cut there.** -/
theorem guardedStatements_eq (var : String) (a : Attribute) :
    a.guardedStatements var = .ok (a.statements var) := by
  unfold guardedStatements statements Rule.forKey
  by_cases hstyle : a.key = "style"
  · rw [if_pos hstyle]
    rfl
  by_cases hclass : a.key = "class"
  · rw [if_neg hstyle, if_pos hclass]
    rfl
  rw [if_neg hstyle, if_neg hclass]
  by_cases hdata : dataMark.isPrefixOf a.key.toList = true
  · obtain ⟨rest, hrest⟩ := List.isPrefixOf_iff_prefix.mp hdata
    have hcut : cutKey a.key 5 = .ok (a.key.toList.drop 5) := by
      have hascii : dataMark.all (fun c => c.val ≤ 127) = true := by decide
      refine cutKey_eq ?_ ?_
      · rw [← hrest, List.length_append]
        exact Nat.le_add_right 5 rest.length
      · rw [← hrest]
        show ∀ c ∈ dataMark, c.val ≤ 127
        exact fun c hc => of_decide_eq_true (List.all_eq_true.mp hascii c hc)
    rw [if_pos hdata]
    simp only [hcut]
    rfl
  rw [if_neg hdata]
  by_cases hevent : isEventKey a.key = true
  · obtain ⟨hlength, hascii⟩ := ascii_of_isEventKey hevent
    have hcut : cutKey a.key 2 = .ok (a.key.toList.drop 2) :=
      cutKey_eq hlength fun c hc => hascii c (List.mem_of_mem_take hc)
    rw [if_pos hevent]
    simp only [hcut]
    rfl
  · rw [if_neg hevent]
    rfl

theorem mapM_guardedStatements (var : String) (attributes : List Attribute) :
    attributes.mapM (·.guardedStatements var) = .ok (attributes.map (·.statements var)) := by
  have heq : (fun a : Attribute => a.guardedStatements var) = fun a => pure (a.statements var) :=
    funext fun a => a.guardedStatements_eq var
  rw [heq, List.mapM_pure]
  rfl

end Attribute

/-! ## Visits -/

section Visits

variable {d : Document} (hd : d.Built) (o : Options) {id : NodeId} {node : Node}
  (hn : d.node? id = some node) (p : Progress)

include hd hn

theorem guardedVisitText_eq (payload : String) :
    guardedVisitText d o id node payload p = .ok (visitText d o id payload p) := by
  unfold guardedVisitText visitText
  simp only [Node.guardedInScript_eq hd hn, p.nearest_eq hd hn]
  split
  · rfl
  · cases d.inScript id with
    | true => rfl
    | false =>
      cases p.parentVariable? d id with
      | some parent => rfl
      | none =>
        cases o.keepRootText with
        | true => rfl
        | false => rfl

theorem guardedVisitElement_eq (tag : Tag) (attributes : List Attribute) :
    guardedVisitElement d o id node tag attributes p =
      .ok (visitElement d o id tag attributes p) := by
  unfold guardedVisitElement visitElement
  split
  · have hsettings := Attribute.mapM_guardedStatements p.names.generate.1 attributes
    simp only [Progress.report, Progress.emit, hsettings, p.nearest_eq hd hn, Fault.ok_bind,
      ← List.flatMap_def]
    rfl
  · rfl

theorem guardedVisit_eq :
    guardedVisit d o id node p = .ok (visit d o id node.content p) := by
  unfold guardedVisit visit
  cases node.content with
  | text payload => exact guardedVisitText_eq hd o hn p payload
  | element tag attributes => exact guardedVisitElement_eq hd o hn p tag attributes
  | _ => rfl

end Visits

/-! ## The walk -/

namespace Walk

variable {d : Document} {o : Options} {w : Walk}

/-- The pending nodes of a walk are nodes of the document. -/
def InRange (d : Document) (w : Walk) : Prop :=
  ∀ id, some id ∈ w.levels → id < d.size

theorem InRange.start (hd : d.Built) (names : VariableNames) : (start d names).InRange d := by
  obtain ⟨top, htop, -⟩ := hd.node?_root
  intro id hid
  rw [Walk.start, htop, Option.bind_some, List.mem_singleton] at hid
  exact (hd.links_lt htop).1 id hid.symm

/-- **One step** finds what it looks for, -/
theorem guardedStep_eq (hd : d.Built) (h : w.InRange d) :
    w.guardedStep d o = .ok (w.step d o) := by
  obtain ⟨levels, p⟩ := w
  unfold guardedStep step
  match levels with
  | [] => rfl
  | none :: outer => rfl
  | some id :: outer =>
    obtain ⟨node, hn⟩ := Document.node?_isSome (h id List.mem_cons_self)
    simp only [Document.fetch_eq hn, Fault.ok_bind, guardedVisit_eq hd o hn p, hn]
    rfl

/-- and goes on to nodes of the document. -/
theorem InRange.step (hd : d.Built) (h : w.InRange d) : (w.step d o).InRange d := by
  obtain ⟨levels, p⟩ := w
  unfold Walk.step
  match levels with
  | [] => exact h
  | none :: outer => exact fun id hid => h id (List.mem_cons_of_mem _ hid)
  | some id :: outer =>
    obtain ⟨node, hn⟩ := Document.node?_isSome (h id List.mem_cons_self)
    obtain ⟨hchild, hnext, -⟩ := hd.links_lt hn
    have hrest : ∀ i, some i ∈ node.nextSibling :: outer → i < d.size := by
      intro i hi
      rcases List.mem_cons.mp hi with hi | hi
      · exact hnext i hi.symm
      · exact h i (List.mem_cons_of_mem _ hi)
    simp only [hn]
    intro i hi
    split at hi
    · rcases List.mem_cons.mp hi with hi | hi
      · exact hchild i hi.symm
      · exact hrest i hi
    · exact hrest i hi

/-- **All steps**: a walk that ends in time does so without a fault. -/
theorem guardedRun_eq (hd : d.Built) (n : Nat) (h : w.InRange d)
    (hend : (run d o n w).levels = []) :
    guardedRun d o n w = .ok (run d o n w).progress := by
  induction n generalizing w with
  | zero =>
    have hlevels : w.levels.isEmpty = true := List.isEmpty_iff.mpr hend
    rw [guardedRun, if_pos hlevels]
    rfl
  | succ n ih =>
    unfold guardedRun run
    unfold run at hend
    split
    · rfl
    · rename_i hlevels
      rw [if_neg hlevels] at hend
      simp only [guardedStep_eq hd h]
      exact ih (h.step hd) hend

end Walk

/-! ## Conversions -/

/-- Writing a script is writing its statements line by line. -/
theorem Output.foldl_line (o : Output) (script : List Statement) :
    script.foldl (fun o statement => o.line statement.render) o = o.write script := by
  induction script generalizing o with
  | nil => simp [write, add, renderScript]
  | cons statement script ih =>
    rw [List.foldl_cons, ih]
    exact (o.write_append [statement] script).symm

theorem Output.growth_write (o : Output) (script : List Statement) :
    (o.write script).growth o.size = .ok (renderScript script).utf8ByteSize := by
  have hsize : (o.write script).size = o.size + (renderScript script).utf8ByteSize :=
    String.utf8ByteSize_append
  rw [growth, if_pos (by omega), hsize, Nat.add_sub_cancel_left]

/-- **A conversion never stops half-way.** On every document that was built and in every session the
guarded conversion meets no fault: every number that it looks up is a node of the document, every
key that it cuts can be cut there, the buffer is never shorter than before, and the walk ends. What
it gives is what the conversion gives. -/
theorem convert_unfaulted {d : Document} (hd : d.Built) (s : Session) :
    s.guardedConvert d =
      .ok ((s.convert d).1.bindings, (s.convert d).1.events, (s.convert d).2) := by
  obtain ⟨top, htop, -⟩ := hd.node?_root
  have hstart : Walk.start d s.names = ⟨[top.firstChild], .start s.names⟩ := by
    rw [Walk.start, htop]
    rfl
  have hrange := Walk.InRange.start hd s.names
  have hend : (Walk.run d s.options (2 * d.size) (Walk.start d s.names)).levels = [] := by
    rw [(hd.run_start s.options s.names).1]
  have hrun := Walk.guardedRun_eq hd (2 * d.size) hrange hend
  simp only [Session.guardedConvert, Document.fetch_eq htop, Fault.ok_bind, ← hstart, hrun,
    Output.foldl_line, Output.growth_write]
  rfl

/-- Keys in mixed letter case and with characters of several bytes behind the cut, and a link that
leads nowhere, which is a fault. -/
theorem convert_unfaulted_specimen :
    let s := Session.new .default
    let d := Document.empty.appendAll
      [(0, .element ⟨"é"⟩ [⟨"oNcLICK", "f()"⟩, ⟨"data-é-ß", "ü"⟩]), (1, .text "x")]
    d.Built ∧
      s.guardedConvert d =
        .ok ((s.convert d).1.bindings, (s.convert d).1.events, (s.convert d).2) ∧
      s.guardedConvert ⟨#[{ content := .document, firstChild := some 7 }]⟩ =
        .error (.noNode 7) := by
  intro s d
  have hd : d.Built := Document.Built.empty.appendAll (by decide)
  exact ⟨hd, convert_unfaulted hd s, by decide⟩

end DomScript
