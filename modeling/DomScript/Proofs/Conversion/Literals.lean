/-
DomScript.Proofs.Conversion.Literals — the literals that a conversion writes.

A text becomes a literal in two steps: it is trimmed when it is visited and escaped when its
statement is written. Since escaping commutes with trimming and takes nothing from the ends of a
trimmed text, the literal of a text node is never empty and never begins or ends with a blank,
whatever the document holds.

* `Yield.trimmed_of_createText`, `Document.trimmed_of_createText` — texts are trimmed;
* `escape_projects` — escaping, trimming and the literals of a conversion.
-/
import DomScript.Proofs.Conversion.Declared
import DomScript.Proofs.Text.NormalForm

namespace DomScript

/-- **A visit creates trimmed texts only.** -/
theorem Yield.trimmed_of_createText {o : Options} {parent? : Option String} {inScript : Bool}
    {id : NodeId} {content : Content} {names : VariableNames} {var text : String}
    (h : .createText var text ∈ (ofNode o parent? inScript id content names).script) :
    Text.Trimmed text.toList := by
  cases content with
  | text payload =>
    rw [ofNode] at h
    rcases ofText_cases o parent? inScript id payload names with
      ⟨events, hy, -⟩ | ⟨-, -, hy⟩ | ⟨hne, -, -, hy⟩
    · simp [hy] at h
    · simp [hy] at h
    · obtain ⟨-, -, -, -, -, htrimmed⟩ := Text.exists_trim payload.toList
      have htext : text = .ofList (Text.trim payload.toList) := by
        simp only [hy, single_script, List.mem_cons, Statement.createText.injEq, reduceCtorEq,
          List.not_mem_nil, or_false] at h
        exact h.2
      rw [htext, String.toList_ofList]
      exact htrimmed hne
  | element tag attributes =>
    simp only [ofNode, ofElement] at h
    split at h
    · -- what an element's attributes give declares nothing, and so creates no text
      have hnone : .createText var text ∉ attributes.flatMap (·.statements names.generate.1) := by
        intro hmem
        cases List.filterMap_eq_nil_iff.mp (declaredVars_attributes _ attributes) _ hmem
      rw [single_script, List.cons_append, List.mem_cons, List.mem_append, List.mem_singleton] at h
      rcases h with h | h | h
      · cases h
      · exact absurd h hnone
      · cases h
    · simp at h
  | _ => simp [ofNode] at h

/-- All texts created so far are trimmed. -/
def Progress.Trimmed (p : Progress) : Prop :=
  ∀ var text, .createText var text ∈ p.script.toList → Text.Trimmed text.toList

theorem Progress.Trimmed.visit {p : Progress} (h : p.Trimmed) (d : Document) (o : Options)
    (id : NodeId) (content : Content) : (visit d o id content p).Trimmed := by
  intro var text hmem
  rw [visit_eq_add rfl rfl, add, Array.toList_appendList, List.mem_append] at hmem
  exact hmem.elim (h var text) Yield.trimmed_of_createText

/-- **A conversion creates trimmed texts only**, of any array of nodes. -/
theorem Document.trimmed_of_createText {d : Document} {o : Options} {names : VariableNames}
    {var text : String} (h : .createText var text ∈ (d.convert o names).script) :
    Text.Trimmed text.toList := by
  have hstart : (Progress.start names).Trimmed := fun var text hmem => nomatch hmem
  exact Walk.run_keeps (P := Progress.Trimmed) (fun id content _ h => h.visit d o id content)
    (w := .start d names) hstart (2 * d.size) var text h

/-- **Escaping projects the texts onto the normal forms and commutes with trimming.** A text is
escaped to itself iff it is in normal form; every text is escaped to a normal form, with as many
quotes as it has, so that escaping twice is escaping once; and a trimmed text is escaped to the
escaped text, trimmed. So the literal of a text node that a conversion creates is not empty, and no
blank stands at its ends. -/
theorem escape_projects :
    (∀ t, Text.escape t = t ↔ Text.Normal t.toList) ∧
    (∀ s, Text.Normal (Text.escape s).toList ∧ Text.escape (Text.escape s) = Text.escape s ∧
      (Text.escape s).toList.count '"' = s.toList.count '"') ∧
    (∀ s, Text.escape (.ofList (Text.trim s.toList)) =
      .ofList (Text.trim (Text.escape s).toList)) ∧
    ∀ (d : Document) (o : Options) (names : VariableNames) (var text : String),
      .createText var text ∈ (d.convert o names).script →
        (Statement.createText var text).render =
          "var " ++ var ++ " = document.createTextNode(\"" ++ Text.escape text ++ "\");" ∧
        Text.Trimmed (Text.escape text).toList := by
  have hfixed : ∀ t, Text.escape t = t ↔ Text.Normal t.toList := by
    intro t
    rw [← Text.literalBody_eq_self_iff, ← String.toList_inj, Text.escape, String.toList_ofList]
  have hnormal : ∀ s, Text.Normal (Text.escape s).toList := by
    intro s
    rw [Text.escape, String.toList_ofList]
    exact Text.normal_literalBody s.toList
  refine ⟨hfixed, fun s => ⟨hnormal s, (hfixed _).mpr (hnormal s), ?_⟩, fun s => ?_, ?_⟩
  · rw [Text.escape, String.toList_ofList, Text.literalBody_eq_escapeFrom]
    exact Text.count_quote_escapeFrom false false s.toList
  · rw [Text.escape, Text.escape, String.toList_ofList, String.toList_ofList, Text.literalBody_trim]
  · intro d o names var text h
    refine ⟨?_, ?_⟩
    · simp only [Statement.render, quoted, String.append_assoc]
      rfl
    · rw [Text.escape, String.toList_ofList]
      exact Text.trimmed_literalBody (Document.trimmed_of_createText h)

/-- A text with quotes and with blanks at its ends, below an element. -/
theorem escape_projects_specimen :
    let d := Document.empty.appendAll [(0, .element ⟨"p"⟩ []), (1, .text "\n say \"yes\"\u00a0")]
    let text := "say \"yes\""
    .createText "_b" text ∈ (d.convert .default (.new "_")).script ∧
      Text.escape text = "say \\\"yes\\\"" ∧ Text.Trimmed (Text.escape text).toList := by
  intro d text
  have hmem : .createText "_b" text ∈ (d.convert .default (.new "_")).script := by decide +kernel
  exact ⟨hmem, by decide, (escape_projects.2.2.2 d .default (.new "_") "_b" text hmem).2⟩

end DomScript
