/-
DomScript.Proofs.Conversion.Decode — the text of a conversion can be read back.

A document is legible for the filters if its words are plain and its texts have no backslash, if the
elements that are created have no event handlers, and if the walk comes to no code. Then every
statement of its conversion is legible, so that the text of the conversion determines them all.

* `Legible.visits` — the statements of a visited node are legible;
* `statements_from` — and what their literals say comes from the node;
* `decode_convert` — decoding the text of a conversion.
-/
import DomScript.Proofs.Conversion.Reach
import DomScript.Proofs.Script.Decode

namespace DomScript

open Text

/-! ## Legible documents -/

/-- The key and the declared properties are plain, and the value has no backslash. -/
structure Attribute.Legible (a : Attribute) : Prop where
  key : Plain a.key.toList
  value : '\\' ∉ a.value.toList
  properties : a.key = "style" → ∀ declaration ∈ styleDeclarations a.value.toList,
    Plain declaration.1

/-- Texts without backslashes, and elements with a plain tag and legible attributes. -/
def Content.Legible : Content → Prop
  | .text payload => '\\' ∉ payload.toList
  | .element tag attributes => Plain tag.name.toList ∧ ∀ a ∈ attributes, a.Legible
  | _ => True

instance (a : Attribute) : Decidable a.Legible :=
  decidable_of_iff
    (Plain a.key.toList ∧ '\\' ∉ a.value.toList ∧
      (a.key = "style" → ∀ declaration ∈ styleDeclarations a.value.toList, Plain declaration.1))
    ⟨fun h => ⟨h.1, h.2.1, h.2.2⟩, fun h => ⟨h.key, h.value, h.properties⟩⟩

instance (c : Content) : Decidable c.Legible :=
  match c with
  | .text payload => inferInstanceAs (Decidable ('\\' ∉ payload.toList))
  | .element tag attributes =>
    inferInstanceAs (Decidable (Plain tag.name.toList ∧ ∀ a ∈ attributes, a.Legible))
  | .document | .comment _ | .doctype _ | .fragment => inferInstanceAs (Decidable True)

/-- Everything is legible, no element that is created has a handler, and the walk comes to no
code. -/
structure Document.Legible (d : Document) (f : Filters) : Prop where
  content : ∀ id content, d.content? id = some content → content.Legible
  no_handlers : ∀ id tag attributes, d.content? id = some (.element tag attributes) →
    f.Admits tag → d.Reached f id → ∀ a ∈ attributes, Attribute.Rule.forKey a.key ≠ .event
  no_code : ∀ id payload, d.content? id = some (.text payload) → d.BelowScript id →
    d.Reached f id → trim payload.toList = []

/-! ## Legible statements -/

/-- The statements of a legible attribute. -/
theorem Attribute.Legible.statements {a : Attribute} (h : a.Legible) {var : String}
    (hv : Plain var.toList) (hrule : Rule.forKey a.key ≠ .event) :
    ∀ s ∈ a.statements var, s.Legible := by
  intro s hs
  unfold Attribute.statements at hs
  cases hr : Rule.forKey a.key with
  | style =>
    rw [hr] at hs
    obtain ⟨⟨property, value⟩, hdecl, rfl⟩ := List.mem_map.mp hs
    have hprop : Plain property := h.properties (Rule.eq_style hr) _ hdecl
    refine ⟨hv, by simp, ?_, ?_⟩
    · intro name hname
      simp only [List.mem_cons, List.not_mem_nil, or_false] at hname
      rcases hname with rfl | rfl
      · decide
      · rw [String.toList_ofList]
        exact plain_camelChars hprop
    · show '\\' ∉ (String.ofList value).toList
      rw [String.toList_ofList]
      exact fun hc => h.value (mem_of_styleDeclarations hdecl hc)
  | className =>
    rw [hr] at hs
    obtain rfl := List.mem_singleton.mp hs
    refine ⟨hv, by simp, ?_, h.value⟩
    intro name hname
    obtain rfl := List.mem_singleton.mp hname
    decide
  | dataset =>
    rw [hr] at hs
    obtain rfl := List.mem_singleton.mp hs
    refine ⟨hv, by simp, ?_, h.value⟩
    intro name hname
    simp only [List.mem_cons, List.not_mem_nil, or_false] at hname
    rcases hname with rfl | rfl
    · decide
    · rw [String.toList_ofList]
      exact plain_camelChars fun c hc => h.key c (List.mem_of_mem_drop hc)
  | event => exact absurd hr hrule
  | property =>
    rw [hr] at hs
    obtain rfl := List.mem_singleton.mp hs
    refine ⟨hv, by simp, ?_, ?_⟩
    · intro name hname
      obtain rfl := List.mem_singleton.mp hname
      rw [camelCase, String.toList_ofList]
      exact plain_camelChars h.key
    · split
      · trivial
      · exact h.value

section Node

variable {o : Options} {held? : Option String} {id : NodeId} {names : VariableNames}

/-- The statements of a legible text that is no code. -/
theorem Content.Legible.ofText {payload : String} (h : '\\' ∉ payload.toList)
    (hstem : Plain names.stem.toList) (hdef : Plain o.defaultParent.toList)
    (hheld : ∀ var ∈ held?, Plain var.toList) {inScript : Bool}
    (hcode : inScript = true → trim payload.toList = []) :
    ∀ s ∈ (Yield.ofText o held? inScript id payload names).script, s.Legible := by
  have hvar : Plain names.advance.name.toList := VariableNames.plain_name hstem
  have htext : '\\' ∉ (String.ofList (trim payload.toList)).toList := by
    rw [String.toList_ofList]
    exact fun hc => h (mem_of_mem_trim hc)
  have hparent : Plain (held?.getD o.defaultParent).toList := by
    cases held? with
    | none => exact hdef
    | some parent => exact hheld parent rfl
  rcases Yield.ofText_cases o held? inScript id payload names with
    ⟨events, hy, -⟩ | ⟨hne, hs, -⟩ | ⟨-, -, -, hy⟩
  · simp [hy]
  · exact absurd (hcode hs) hne
  · simp only [hy, Yield.single_script, List.forall_mem_cons]
    exact ⟨⟨hvar, htext⟩, ⟨hparent, hvar⟩, by simp⟩

/-- The statements of a legible element without handlers. -/
theorem Content.Legible.ofElement {tag : Tag} {attributes : List Attribute}
    (h : Content.Legible (.element tag attributes)) (hstem : Plain names.stem.toList)
    (hdef : Plain o.defaultParent.toList) (hheld : ∀ var ∈ held?, Plain var.toList)
    (hrule : o.filters.Admits tag → ∀ a ∈ attributes, Attribute.Rule.forKey a.key ≠ .event) :
    ∀ s ∈ (Yield.ofElement o held? id tag attributes names).script, s.Legible := by
  intro s hs
  have hvar : Plain names.generate.1.toList := VariableNames.plain_name hstem
  simp only [Yield.ofElement] at hs
  split at hs
  · rename_i he
    rw [Yield.single_script, List.cons_append, List.mem_cons, List.mem_append,
      List.mem_singleton] at hs
    rcases hs with rfl | hs | rfl
    · exact ⟨hvar, h.1⟩
    · obtain ⟨a, ha, hs⟩ := List.mem_flatMap.mp hs
      exact (h.2 a ha).statements hvar (hrule ((o.filters.isEligible_iff tag).mp he) a ha) s hs
    · refine ⟨?_, hvar⟩
      cases held? with
      | none => exact hdef
      | some parent => exact hheld parent rfl
  · simp at hs

end Node

/-- **The statements of a visited node are legible.** -/
theorem Document.Legible.visits {d : Document} (hd : d.Built) {o : Options}
    {names : VariableNames} (h : d.Legible o.filters) (hstem : Plain names.stem.toList)
    (hdef : Plain o.defaultParent.toList) {id : NodeId} {part : List Statement}
    (hpart : (id, part) ∈ d.visits o names) : ∀ s ∈ part, s.Legible := by
  have hreached : d.Reached o.filters id := hd.reached_of_visited hpart
  obtain ⟨content, held?, given, hcontent, hgiven, hhanded, rfl⟩ := hd.visits_part hpart
  have hheld : ∀ var ∈ held?, Plain var.toList := by
    intro var hvar
    obtain ⟨letters, rfl⟩ := hhanded.named var hvar
    exact VariableNames.plain_name hstem
  have hlegible := h.content id content hcontent
  rw [← hgiven] at hstem
  cases content with
  | text payload =>
    refine Content.Legible.ofText hlegible hstem hdef hheld fun hscript => ?_
    exact h.no_code id payload hcontent ((d.belowScript_iff id).mpr hscript) hreached
  | element tag attributes =>
    refine hlegible.ofElement hstem hdef hheld fun hadmits => ?_
    exact h.no_handlers id tag attributes hcontent hadmits hreached
  | _ =>
    intro s hs
    simp [Yield.ofNode] at hs

/-! ## Where the texts come from -/

/-- The right-hand sides that an attribute leads to: `true` for an empty value, the trimmed values
that a style declares, and otherwise the value as it is. -/
def Attribute.Gives (a : Attribute) : Operand → Prop
  | .truth => a.value = ""
  | .text raw =>
    if a.key = "style" then
      ∃ declaration ∈ styleDeclarations a.value.toList, raw = .ofList declaration.2
    else raw = a.value

/-- What a statement says comes from the node of this content. -/
def Statement.From (content : Content) : Statement → Prop
  | .createElement _ tag => content.tag? = some tag
  | .createText _ text => ∃ payload, content = .text payload ∧ text = .ofList (trim payload.toList)
  | .assign _ _ value => ∃ a ∈ content.attributes, a.Gives value
  | .listen _ _ handler => ∃ a ∈ content.attributes, handler = a.value
  | .appendChild _ _ => True
  | .code text => ∃ payload, content = .text payload ∧ text = .ofList (trim payload.toList)

theorem Attribute.statements_from (content : Content) {a : Attribute}
    (ha : a ∈ content.attributes) (var : String) : ∀ s ∈ a.statements var, s.From content := by
  intro s hs
  unfold Attribute.statements at hs
  have hother : Rule.forKey a.key ≠ .style → a.Gives (.text a.value) := by
    intro hr
    have hkey : a.key ≠ "style" := fun hk => hr (by simp [Rule.forKey, hk])
    show if a.key = "style" then _ else a.value = a.value
    rw [if_neg hkey]
  cases hr : Rule.forKey a.key with
  | style =>
    rw [hr] at hs
    obtain ⟨declaration, hdecl, rfl⟩ := List.mem_map.mp hs
    refine ⟨a, ha, ?_⟩
    show if a.key = "style" then _ else _
    rw [if_pos (Rule.eq_style hr)]
    exact ⟨declaration, hdecl, rfl⟩
  | className =>
    rw [hr] at hs
    obtain rfl := List.mem_singleton.mp hs
    exact ⟨a, ha, hother (by rw [hr]; simp)⟩
  | dataset =>
    rw [hr] at hs
    obtain rfl := List.mem_singleton.mp hs
    exact ⟨a, ha, hother (by rw [hr]; simp)⟩
  | event =>
    rw [hr] at hs
    obtain rfl := List.mem_singleton.mp hs
    exact ⟨a, ha, rfl⟩
  | property =>
    rw [hr] at hs
    obtain rfl := List.mem_singleton.mp hs
    refine ⟨a, ha, ?_⟩
    split
    · rename_i hempty
      exact String.isEmpty_iff.mp hempty
    · exact hother (by rw [hr]; simp)

/-- **Whatever the parent**, the statements of a node come from its content. -/
theorem Yield.ofNode_from (o : Options) (held? : Option String) (inScript : Bool) (id : NodeId)
    (content : Content) (names : VariableNames) :
    ∀ s ∈ (ofNode o held? inScript id content names).script, s.From content := by
  intro s hs
  cases content with
  | text payload =>
    rw [ofNode] at hs
    rcases ofText_cases o held? inScript id payload names with
      ⟨events, hy, -⟩ | ⟨-, -, hy⟩ | ⟨-, -, -, hy⟩ <;> rw [hy, single_script] at hs
    · simp at hs
    · obtain rfl := List.mem_singleton.mp hs
      exact ⟨payload, rfl, rfl⟩
    · simp only [List.mem_cons, List.not_mem_nil, or_false] at hs
      rcases hs with rfl | rfl
      · exact ⟨payload, rfl, rfl⟩
      · trivial
  | element tag attributes =>
    simp only [ofNode, ofElement] at hs
    split at hs
    · rw [single_script, List.cons_append, List.mem_cons, List.mem_append,
        List.mem_singleton] at hs
      rcases hs with rfl | hs | rfl
      · rfl
      · obtain ⟨a, ha, hs⟩ := List.mem_flatMap.mp hs
        exact Attribute.statements_from (.element tag attributes) ha _ s hs
      · trivial
    · simp at hs
  | _ => simp [ofNode] at hs

/-! ## Whole conversions -/

/-- **Decoding undoes a conversion.** The text of the conversion of a legible document, under a
plain stem and a plain default parent, is read as the statements of the conversion, with the texts
that their literals denote: the trimmed payloads, the trimmed values of styles and the values of
other attributes, with their blanks collapsed. -/
theorem decode_convert {d : Document} (hd : d.Built) {o : Options} (names : VariableNames)
    (h : d.Legible o.filters) (hstem : Plain names.stem.toList)
    (hdef : Plain o.defaultParent.toList) :
    let c := d.convert o names
    ∃ readings, c.script.mapM Statement.reading? = some readings ∧
      Decode.decode c.text = some readings ∧
      (d.visits o names).flatMap Prod.snd = c.script ∧
      ∀ id part, (id, part) ∈ d.visits o names → ∀ s ∈ part,
        ∃ content, d.content? id = some content ∧ s.From content := by
  intro c
  have hscript : (d.visits o names).flatMap Prod.snd = c.script := hd.flatMap_visits o names
  have hlegible : ∀ s ∈ c.script, s.Legible := by
    intro s hs
    rw [← hscript] at hs
    obtain ⟨⟨id, part⟩, hpart, hs⟩ := List.mem_flatMap.mp hs
    exact h.visits hd hstem hdef hpart s hs
  obtain ⟨readings, hread, hdecode⟩ := Decode.decode_renderScript hlegible
  refine ⟨readings, hread, hdecode, hscript, ?_⟩
  intro id part hpart s hs
  obtain ⟨content, held?, given, hcontent, -, -, rfl⟩ := hd.visits_part hpart
  exact ⟨content, hcontent, Yield.ofNode_from o held? _ id content given s hs⟩

/-- The default options, but scripts are not walked into. -/
def Options.unscripted : Options :=
  { Options.default with filters := { Filters.default with ignores := ⟨[.head, .script]⟩ } }

theorem specimen_legible : Document.specimen.Legible Options.unscripted.filters := by
  have hmem : ∀ id content, Document.specimen.content? id = some content →
      ∃ n ∈ Document.specimen.nodes.toList, n.content = content := by
    intro id content hc
    obtain ⟨n, hn, rfl⟩ := Option.map_eq_some_iff.mp hc
    exact ⟨n, Array.mem_toList_iff.mpr (Array.mem_of_getElem? hn), rfl⟩
  refine ⟨?_, ?_, ?_⟩
  · intro id content hc
    have hall : ∀ n ∈ Document.specimen.nodes.toList, n.content.Legible := by decide
    obtain ⟨n, hn, rfl⟩ := hmem id content hc
    exact hall n hn
  · intro id tag attributes hc _ _ a ha
    have hall : ∀ n ∈ Document.specimen.nodes.toList, ∀ a ∈ n.content.attributes,
        Attribute.Rule.forKey a.key ≠ .event := by decide
    obtain ⟨n, hn, hn'⟩ := hmem id _ hc
    exact hall n hn a (by rw [hn']; exact ha)
  · rintro id payload - ⟨n, above, attributes, hn, hparent, hc⟩ hr
    -- the script element above the text is ignored
    have habove : above ∈ Document.specimen.ancestors id := by
      rw [Document.specimen_built.ancestors_cons hn hparent]
      exact List.mem_cons_self ..
    exact absurd (by decide) ((hr above habove _ hc).2 .script attributes rfl)

theorem decode_convert_specimen :
    Document.specimen.Built ∧ Document.specimen.Legible Options.unscripted.filters ∧
    Plain "_".toList ∧ Plain "document.body".toList ∧
    let c := Document.specimen.convert .unscripted (.new "_")
    ∃ readings, c.script.mapM Statement.reading? = some readings ∧
      Decode.decode c.text = some readings := by
  have hstem : Plain "_".toList := by decide
  have hdef : Plain "document.body".toList := by decide
  obtain ⟨readings, hread, hdecode, -⟩ :=
    decode_convert Document.specimen_built (.new "_") specimen_legible hstem hdef
  exact ⟨Document.specimen_built, specimen_legible, hstem, hdef, readings, hread, hdecode⟩

end DomScript
