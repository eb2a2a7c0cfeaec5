/-
DomScript.Proofs.Conversion.Sequence — one conversion of two forests is two conversions.

A conversion begins with no bindings, but goes on with the names and with the buffer of its session.
Trees that stand side by side below a document node share the names only: no node of the one is an
ancestor of a node of the other. So a document that holds the trees of two others is converted as
these are, one behind the other.

* `Forest.convert_append` — the recursion over two forests in a row;
* `convert_sequence` — a document that holds the trees of two others.
-/
import DomScript.Proofs.Conversion.Renumbering

namespace DomScript

/-! ## Scripts in a row -/

theorem renderScript_append (script more : List Statement) :
    renderScript (script ++ more) = renderScript script ++ renderScript more := by
  rw [renderScript, List.map_append, String.join_append]
  rfl

/-- Two scripts in a row are written one behind the other. -/
theorem Output.write_append (o : Output) (script more : List Statement) :
    o.write (script ++ more) = (o.write script).write more := by
  simp only [write, add, renderScript_append, String.append_assoc]

/-! ## Forests in a row -/

theorem Yield.andThen_assoc (y : Yield) (next more : VariableNames → Yield) :
    (y.andThen next).andThen more = y.andThen fun names => (next names).andThen more := by
  simp only [andThen, List.append_assoc]

/-- **The recursion over two forests in a row** is that over the one and then that over the other,
from the names that the first leaves. -/
theorem Forest.convert_append (o : Options) (parent? : Option String) (inScript : Bool)
    (f g : Forest (NodeId × Content)) (names : VariableNames) :
    (f ++ g).convert o parent? inScript names =
      (f.convert o parent? inScript names).andThen (g.convert o parent? inScript) := by
  induction f generalizing names with
  | nil => rfl
  | node a kids sibs _ ih =>
    rw [node_append, convert_node, convert_node o parent? inScript a kids sibs,
      Yield.andThen_assoc]
    congr 1
    exact funext ih

/-! ## Documents -/

/-- **One conversion of two forests is two conversions.** If below the document node of `d` there
are the trees of `d₁` and behind them those of `d₂`, then `d` gives the text of `d₁` and behind it
the text that `d₂` gives in the session after that, and leaves the session that the two leave. The
nodes of `d₁` and `d₂` have their numbers in `d`, and under these the bindings are those of the
first conversion and behind them those of the second. -/
theorem convert_sequence {d d₁ d₂ : Document} (hd : d.Built) (hd₁ : d₁.Built) (hd₂ : d₂.Built)
    (h : d.trees.shape = d₁.trees.shape ++ d₂.trees.shape) (s : Session) :
    let first := s.convert d₁
    let second := first.2.convert d₂
    (s.convert d).1.text = first.1.text ++ second.1.text ∧
      (s.convert d).2 = second.2 ∧
      (∃ σ₁ σ₂, d.trees = d₁.trees.renumber σ₁ ++ d₂.trees.renumber σ₂) ∧
      ∀ σ₁ σ₂, d.trees = d₁.trees.renumber σ₁ ++ d₂.trees.renumber σ₂ →
        (s.convert d).1.bindings.toList =
          first.1.bindings.toList.map (Prod.map σ₁ id) ++
            second.1.bindings.toList.map (Prod.map σ₂ id) := by
  intro first second
  -- what the three conversions yield, whatever the numbers are
  have hyield : ∀ σ₁ σ₂, d.trees = d₁.trees.renumber σ₁ ++ d₂.trees.renumber σ₂ →
      s.yield d = ((s.yield d₁).renumber σ₁).andThen fun _ => (first.2.yield d₂).renumber σ₂ := by
    intro σ₁ σ₂ htrees
    have hfirst : first.2 = { s with
        names := (s.yield d₁).names, output := s.output.write (s.yield d₁).script } :=
      s.convert_session hd₁
    rw [hfirst, Session.yield, htrees, Forest.convert_append, Forest.convert_renumber]
    simp only [Yield.andThen, Forest.convert_renumber]
    rfl
  have hparts : ∃ σ₁ σ₂, d.trees = d₁.trees.renumber σ₁ ++ d₂.trees.renumber σ₂ := by
    obtain ⟨f, g, hfg, hf, hg⟩ := Forest.exists_append_of_shape h
    obtain ⟨σ₁, rfl⟩ := Forest.exists_renumber hd₁.nodup_ids.2 hf
    obtain ⟨σ₂, rfl⟩ := Forest.exists_renumber hd₂.nodup_ids.2 hg
    exact ⟨σ₁, σ₂, hfg⟩
  obtain ⟨σ₁, σ₂, htrees⟩ := hparts
  have hscript : (s.yield d).script = (s.yield d₁).script ++ (first.2.yield d₂).script := by
    rw [hyield σ₁ σ₂ htrees, Yield.andThen_script, Yield.renumber_script, Yield.renumber_script]
  have hnames : (s.yield d).names = (first.2.yield d₂).names := by
    rw [hyield σ₁ σ₂ htrees]
    rfl
  refine ⟨?_, ?_, ⟨σ₁, σ₂, htrees⟩, ?_⟩
  · rw [Conversion.text, Conversion.text, Conversion.text, s.convert_script hd,
      s.convert_script hd₁, first.2.convert_script hd₂, hscript, renderScript_append]
  · rw [s.convert_session hd, first.2.convert_session hd₂, hscript, hnames, Output.write_append,
      s.convert_session hd₁]
  · intro σ₁ σ₂ htrees
    rw [s.convert_bindings hd, s.convert_bindings hd₁, first.2.convert_bindings hd₂,
      hyield σ₁ σ₂ htrees]
    rfl

/-- A paragraph, and a list behind a comment; the document that holds both was built level by level,
so that its numbers are in another order. -/
theorem convert_sequence_specimen :
    let d₁ := Document.empty.appendAll [(0, .element ⟨"p"⟩ []), (1, .text "x")]
    let d₂ := Document.empty.appendAll
      [(0, .comment "y"), (0, .element ⟨"ul"⟩ []), (2, .element ⟨"li"⟩ [])]
    let d := Document.empty.appendAll
      [(0, .element ⟨"p"⟩ []), (0, .comment "y"), (0, .element ⟨"ul"⟩ []),
        (3, .element ⟨"li"⟩ []), (1, .text "x")]
    let σ₁ : NodeId → NodeId := fun id => [0, 1, 5].getD id 0
    let σ₂ : NodeId → NodeId := fun id => [0, 2, 3, 4].getD id 0
    let s := Session.new .default
    d.Built ∧ d₁.Built ∧ d₂.Built ∧ d.trees.shape = d₁.trees.shape ++ d₂.trees.shape ∧
      d.trees = d₁.trees.renumber σ₁ ++ d₂.trees.renumber σ₂ ∧
      (s.convert d).2 = ((s.convert d₁).2.convert d₂).2 ∧
      (s.convert d).1.bindings.toList = [(1, "_a"), (3, "_c"), (4, "_d")] := by
  intro d₁ d₂ d σ₁ σ₂ s
  have hd : d.Built := Document.Built.empty.appendAll (by decide)
  have hd₁ : d₁.Built := Document.Built.empty.appendAll (by decide)
  have hd₂ : d₂.Built := Document.Built.empty.appendAll (by decide)
  have hshape : d.trees.shape = d₁.trees.shape ++ d₂.trees.shape := by decide +kernel
  have htrees : d.trees = d₁.trees.renumber σ₁ ++ d₂.trees.renumber σ₂ := by decide +kernel
  obtain ⟨-, hsession, -, hbindings⟩ := convert_sequence hd hd₁ hd₂ hshape s
  refine ⟨hd, hd₁, hd₂, hshape, htrees, hsession, ?_⟩
  rw [hbindings σ₁ σ₂ htrees]
  decide +kernel

end DomScript
