/-
DomScript.Proofs.Conversion.Spaces — which spaces of a text reach its literal.

Two notions of blank space meet on the way of a text. Escaping takes ASCII blanks only, and so keeps
the characters of `solid` one by one; trimming takes all of White_Space, and so also the no-break
spaces and their like at both ends of a text. A text is therefore created with all it has but ASCII
blanks iff it has anything else than White_Space and the White_Space at its ends is ASCII.

* `solid_literalBody` — what escaping keeps;
* `solid_trim_iff` — when trimming keeps as much;
* `text_survives_iff` — which texts a conversion creates whole.
-/
import DomScript.Proofs.Conversion.Reach
import DomScript.Proofs.Text.Literal
import DomScript.Proofs.Text.NormalForm

namespace DomScript

namespace Text

/-! ## What escaping keeps -/

/-- A text without its ASCII blanks. -/
def solid (cs : List Char) : List Char :=
  cs.filter (!isAsciiBlank ·)

theorem solid_append (cs ds : List Char) : solid (cs ++ ds) = solid cs ++ solid ds :=
  List.filter_append cs ds

theorem solid_eq_nil_iff {cs : List Char} : solid cs = [] ↔ ∀ c ∈ cs, isAsciiBlank c = true := by
  simp [solid, List.filter_eq_nil_iff]

/-- Collapsing blanks changes nothing but ASCII blanks. -/
theorem solid_squeeze (spaced : Bool) (cs : List Char) : solid (squeeze spaced cs) = solid cs := by
  have hspace : isAsciiBlank ' ' = true := rfl
  induction cs generalizing spaced with
  | nil => rfl
  | cons c cs ih =>
    by_cases hb : isAsciiBlank c
    · have hc : solid (c :: cs) = solid cs := List.filter_cons_of_neg (by simp [hb])
      rw [squeeze, if_pos hb, hc]
      split
      · exact ih true
      · split
        · exact ih false
        · rw [solid, List.filter_cons_of_neg (by simp [hspace])]
          exact ih true
    · have hc : ∀ ds, solid (c :: ds) = c :: solid ds :=
        fun ds => List.filter_cons_of_pos (by simpa using hb)
      rw [squeeze, if_neg hb, hc, hc, ih]

/-- **Escaping keeps** all but ASCII blanks, where nothing needs a backslash. -/
theorem solid_literalBody {cs : List Char} (hquote : '"' ∉ cs) (hslash : '\\' ∉ cs) :
    solid (literalBody cs) = solid cs := by
  have hplain : ∀ c ∈ collapse cs, escapeQuote c = [c] := by
    intro c hc
    have hne : c ≠ '"' := by
      rintro rfl
      rcases mem_collapse hc with h | ⟨h, -⟩
      · cases h
      · exact hquote h
    simp [escapeQuote, hne]
  have hkept : (collapse cs).flatMap escapeQuote = collapse cs := by
    rw [List.flatMap_congr hplain, List.flatMap_singleton']
  rw [literalBody_eq hslash, hkept, collapse_eq, solid_squeeze]

/-! ## What trimming keeps -/

/-- The White_Space at both ends is ASCII. -/
structure AsciiEnds (cs : List Char) : Prop where
  front : ∀ c ∈ cs.takeWhile isWhiteSpace, isAsciiBlank c = true
  back : ∀ c ∈ cs.reverse.takeWhile isWhiteSpace, isAsciiBlank c = true

instance (cs : List Char) : Decidable (AsciiEnds cs) :=
  decidable_of_iff
    ((cs.takeWhile isWhiteSpace).all isAsciiBlank = true ∧
      (cs.reverse.takeWhile isWhiteSpace).all isAsciiBlank = true) <| by
    rw [List.all_eq_true, List.all_eq_true]
    exact ⟨fun ⟨hfront, hback⟩ => ⟨hfront, hback⟩, fun ⟨hfront, hback⟩ => ⟨hfront, hback⟩⟩

/-- **Trimming keeps** all but ASCII blanks iff the White_Space at both ends is ASCII. -/
theorem solid_trim_iff (cs : List Char) : solid (trim cs) = solid cs ↔ AsciiEnds cs := by
  by_cases hne : trim cs = []
  · -- nothing is left, and all of the text stands at its front
    have hstart : cs.takeWhile isWhiteSpace = cs :=
      List.takeWhile_eq_self_iff.mpr (trim_eq_nil_iff.mp hne)
    have hnil : solid (trim cs) = [] := by rw [hne]; rfl
    rw [hnil, eq_comm, solid_eq_nil_iff]
    constructor
    · intro h
      exact ⟨fun c hc => h c (List.takeWhile_subset _ hc),
        fun c hc => h c (List.mem_reverse.mp (List.takeWhile_subset _ hc))⟩
    · intro h
      rw [← hstart]
      exact h.front
  · obtain ⟨front, back, hsplit, hfront, hback, hword⟩ := exists_trim cs
    have hword := hword hne
    have hstart : cs.takeWhile isWhiteSpace = front := by
      rw [hsplit, List.append_assoc]
      refine takeWhile_pad hfront fun c hc => hword.first c ?_
      rwa [List.head?_append_of_ne_nil _ hne] at hc
    have hend : cs.reverse.takeWhile isWhiteSpace = back.reverse := by
      rw [hsplit, List.reverse_append, List.reverse_append]
      refine takeWhile_pad (fun c hc => hback c (List.mem_reverse.mp hc)) fun c hc =>
        hword.last c ?_
      rwa [List.head?_append_of_ne_nil _ (by simpa using hne), List.head?_reverse] at hc
    have hsolid : solid cs = solid front ++ solid (trim cs) ++ solid back := by
      rw [← solid_append, ← solid_append, ← hsplit]
    constructor
    · intro h
      have hlength := congrArg List.length (h.trans hsolid)
      simp only [List.length_append] at hlength
      have hf : solid front = [] := List.eq_nil_of_length_eq_zero (by omega)
      have hb : solid back = [] := List.eq_nil_of_length_eq_zero (by omega)
      refine ⟨by rw [hstart]; exact solid_eq_nil_iff.mp hf, ?_⟩
      rw [hend]
      exact fun c hc => solid_eq_nil_iff.mp hb c (List.mem_reverse.mp hc)
    · rintro ⟨hf, hb⟩
      rw [hstart, ← solid_eq_nil_iff] at hf
      rw [hend] at hb
      have hb : solid back = [] := solid_eq_nil_iff.mpr fun c hc => hb c (List.mem_reverse.mpr hc)
      rw [hsolid, hf, hb, List.nil_append, List.append_nil]

end Text

open Text

/-! ## Texts below a created element -/

/-- A text that the walk visits below a created element, and not right below a script, with no
character that is written with a backslash. The part is what it gives. -/
structure Document.ShownText (d : Document) (o : Options) (names : VariableNames) (id : NodeId)
    (payload : String) (part : List Statement) : Prop where
  content : d.content? id = some (.text payload)
  visited : (id, part) ∈ d.visits o names
  no_script : ¬ d.BelowScript id
  below : ∃ a ∈ d.ancestors id, a ∈ (d.convert o names).bindings.toList.map Prod.fst
  no_quote : '"' ∉ payload.toList
  no_slash : '\\' ∉ payload.toList

/-- The statements create a text whose literal is the payload but for ASCII blanks. -/
def Whole (payload : String) (part : List Statement) : Prop :=
  ∃ var text, .createText var text ∈ part ∧ solid (escape text).toList = solid payload.toList

section Texts

variable {d : Document} {o : Options} {names : VariableNames} {id : NodeId} {payload : String}
  {part : List Statement}

/-- What a shown text creates. -/
theorem Document.ShownText.createText_mem_iff (hd : d.Built)
    (h : d.ShownText o names id payload part) (text : String) :
    (∃ var, .createText var text ∈ part) ↔
      trim payload.toList ≠ [] ∧ text = .ofList (trim payload.toList) := by
  obtain ⟨content, held?, given, hcontent, -, hheld, rfl⟩ := hd.visits_part h.visited
  obtain rfl : content = .text payload := Option.some.inj (hcontent.symm.trans h.content)
  obtain ⟨a, ha, hbound⟩ := h.below
  have hadmitted : d.Admitted o.filters a := (((hd.bound_ids o names).2 a).mp hbound).1
  have hsome : held?.isSome := hheld.isSome_iff.mpr ⟨a, ha, hadmitted⟩
  have hother : d.inScript id = false := by simpa [d.belowScript_iff] using h.no_script
  have hmem : (∃ var, .createText var text ∈
      (Yield.ofNode o held? (d.inScript id) id (.text payload) given).script) ↔ _ :=
    Yield.createText_mem_ofText
  rw [hmem]
  simp [hsome, hother]

/-- **What the literal keeps** of a shown text is what is left of it by trimming, but for ASCII
blanks. -/
theorem Document.ShownText.solid_escape (hd : d.Built) (h : d.ShownText o names id payload part)
    {var text : String} (hmem : .createText var text ∈ part) :
    solid (escape text).toList = solid (trim payload.toList) := by
  obtain ⟨-, rfl⟩ := (h.createText_mem_iff hd text).mp ⟨var, hmem⟩
  rw [escape, String.toList_ofList, String.toList_ofList]
  exact solid_literalBody (fun hc => h.no_quote (mem_of_mem_trim hc))
    fun hc => h.no_slash (mem_of_mem_trim hc)

/-- **Which texts survive.** A shown text is created iff it has anything else than White_Space. Its
literal is what trimming leaves of it, but for ASCII blanks; and so it has lost nothing but ASCII
blanks iff the White_Space at its ends is ASCII. -/
theorem text_survives_iff (hd : d.Built) (h : d.ShownText o names id payload part) :
    ((∃ var text, .createText var text ∈ part) ↔ ∃ c ∈ payload.toList, isWhiteSpace c = false) ∧
    (∀ var text, .createText var text ∈ part →
      (Statement.createText var text).render =
        "var " ++ var ++ " = document.createTextNode(\"" ++ escape text ++ "\");" ∧
      solid (escape text).toList = solid (trim payload.toList)) ∧
    (Whole payload part ↔
      (∃ c ∈ payload.toList, isWhiteSpace c = false) ∧ AsciiEnds payload.toList) := by
  have hshown : trim payload.toList ≠ [] ↔ ∃ c ∈ payload.toList, isWhiteSpace c = false := by
    simp [trim_eq_nil_iff]
  have hcreated : (∃ var text, .createText var text ∈ part) ↔ trim payload.toList ≠ [] := by
    constructor
    · rintro ⟨var, text, hmem⟩
      exact ((h.createText_mem_iff hd text).mp ⟨var, hmem⟩).1
    · intro hne
      obtain ⟨var, hmem⟩ := (h.createText_mem_iff hd _).mpr ⟨hne, rfl⟩
      exact ⟨var, _, hmem⟩
  refine ⟨hcreated.trans hshown, fun var text hmem => ⟨?_, h.solid_escape hd hmem⟩, ?_⟩
  · simp only [Statement.render, quoted, String.append_assoc]
    rfl
  · rw [← hshown, ← hcreated, ← solid_trim_iff]
    constructor
    · rintro ⟨var, text, hmem, hsolid⟩
      exact ⟨⟨var, text, hmem⟩, by rw [← hsolid, h.solid_escape hd hmem]⟩
    · rintro ⟨⟨var, text, hmem⟩, hsolid⟩
      exact ⟨var, text, hmem, by rw [h.solid_escape hd hmem, hsolid]⟩

end Texts

/-- A paragraph of three texts: one with a no-break space inside, one that is a no-break space, and
one that begins with one. -/
def Document.spaced : Document :=
  .appendAll .empty [(0, .element ⟨"p"⟩ []), (1, .text "\n a\u00a0b "), (1, .text "\u00a0"),
    (1, .text "\u00a0c")]

theorem Document.spaced_built : Document.spaced.Built :=
  .appendAll .empty (by decide)

theorem Document.spaced_visits : Document.spaced.visits .default (.new "_") =
    [(1, [.createElement "_a" ⟨"p"⟩, .appendChild "document.body" "_a"]),
      (2, [.createText "_b" "a\u00a0b", .appendChild "_a" "_b"]), (3, []),
      (4, [.createText "_c" "c", .appendChild "_a" "_c"])] := by
  decide +kernel

/-- All three are shown. -/
theorem Document.spaced_shown {id : NodeId} {payload : String} {part : List Statement}
    (hid : id ∈ [2, 3, 4]) (hc : Document.spaced.content? id = some (.text payload))
    (hpart : (id, part) ∈ Document.spaced.visits .default (.new "_"))
    (hquote : '"' ∉ payload.toList) (hslash : '\\' ∉ payload.toList) :
    Document.spaced.ShownText .default (.new "_") id payload part := by
  have habove : ∀ i ∈ [2, 3, 4],
      Document.spaced.inScript i = false ∧ 1 ∈ Document.spaced.ancestors i := by
    decide
  have hbound : 1 ∈ (Document.spaced.convert .default (.new "_")).bindings.toList.map Prod.fst := by
    decide +kernel
  obtain ⟨hother, hparent⟩ := habove id hid
  refine ⟨hc, hpart, ?_, ⟨1, hparent, hbound⟩, hquote, hslash⟩
  rw [Document.belowScript_iff, hother]
  exact Bool.false_ne_true

/-- The no-break space inside the first text is in its literal. -/
theorem text_survives_iff_specimen :
    let part := [.createText "_b" "a\u00a0b", .appendChild "_a" "_b"]
    Document.spaced.Built ∧
    Document.spaced.ShownText .default (.new "_") 2 "\n a\u00a0b " part ∧
    Whole "\n a\u00a0b " part := by
  intro part
  have hshown : Document.spaced.ShownText .default (.new "_") 2 "\n a\u00a0b " part :=
    Document.spaced_shown (by decide) rfl (by rw [Document.spaced_visits]; simp [part]) (by decide)
      (by decide)
  have hinside : ∃ c ∈ "\n a\u00a0b ".toList, isWhiteSpace c = false := ⟨'a', by decide, rfl⟩
  have hends : AsciiEnds "\n a\u00a0b ".toList := by decide
  exact ⟨Document.spaced_built, hshown,
    (text_survives_iff Document.spaced_built hshown).2.2.mpr ⟨hinside, hends⟩⟩

/-- **Not every space survives**: a text of one no-break space is not created, though it is no ASCII
blank, and a no-break space in front of another character is missing from the literal. -/
theorem spaces_lost :
    let lost := [.createText "_c" "c", .appendChild "_a" "_c"]
    Document.spaced.Built ∧
    (Document.spaced.ShownText .default (.new "_") 3 "\u00a0" [] ∧
      (∃ c ∈ "\u00a0".toList, isAsciiBlank c = false) ∧ ¬ Whole "\u00a0" []) ∧
    Document.spaced.ShownText .default (.new "_") 4 "\u00a0c" lost ∧
      (∃ c ∈ "\u00a0c".toList, isAsciiBlank c = false) ∧ ¬ Whole "\u00a0c" lost := by
  intro lost
  refine ⟨Document.spaced_built, ⟨?_, ⟨'\u00a0', by decide, rfl⟩, ?_⟩, ?_,
    ⟨'c', by decide, rfl⟩, ?_⟩
  · exact Document.spaced_shown (by decide) rfl (by rw [Document.spaced_visits]; simp) (by decide)
      (by decide)
  · rintro ⟨var, text, hmem, -⟩
    cases hmem
  · exact Document.spaced_shown (by decide) rfl (by rw [Document.spaced_visits]; simp [lost])
      (by decide) (by decide)
  · rintro ⟨var, text, hmem, hsolid⟩
    obtain ⟨rfl, rfl⟩ : var = "_c" ∧ text = "c" := by simpa [lost] using hmem
    revert hsolid
    decide

end DomScript
