/-
DomScript.Proofs.Script.Containment — which payloads stay inside their statement.

A line is contained if it has no line break in it and its literal, if there is one, closes at the
last quote of the line. Whatever the text of a text node, its line is one line; but an escaped text
may still take the quote behind it, or let one of its own through, and the names that a style
declares are written as they are.

* `contained_literal` — a line with one literal is contained exactly if nothing in front of the
  literal is a quote or a line break, and the text of the literal is closable;
* `Attribute.contained_iff` — which attributes have contained statements only;
* `payload_contained_iff` — both, for every payload.
-/
import DomScript.Proofs.Script.Decode
import DomScript.Proofs.Text.Closing

namespace DomScript

open Text Decode

/-! ## Contained lines -/

/-- No quote and no line break. -/
def Clear (cs : List Char) : Prop :=
  ∀ c ∈ cs, c ≠ '"' ∧ isLineBreak c = false

instance (cs : List Char) : Decidable (Clear cs) :=
  decidable_of_iff (cs.all (fun c => c != '"' && !isLineBreak c) = true) (by simp [Clear])

/-- No line break. -/
def OneLine (line : List Char) : Prop :=
  ∀ c ∈ line, isLineBreak c = false

instance (line : List Char) : Decidable (OneLine line) :=
  decidable_of_iff (line.all (!isLineBreak ·) = true) (by simp [OneLine])

/-- One line, in which the literal, if there is one, closes at the last quote. -/
structure Contained (line : List Char) : Prop where
  one_line : OneLine line
  closes : ∀ before rest, splitFirst? '"' line = some (before, rest) →
    ∃ tail, closing rest = some tail ∧ '"' ∉ tail

theorem clear_append {cs ds : List Char} : Clear (cs ++ ds) ↔ Clear cs ∧ Clear ds :=
  List.forall_mem_append

theorem Clear.quote_notMem {cs : List Char} (h : Clear cs) : '"' ∉ cs :=
  fun hmem => (h '"' hmem).1 rfl

theorem Clear.oneLine {cs : List Char} (h : Clear cs) : OneLine cs :=
  fun c hc => (h c hc).2

/-- A line without quotes holds no literal. -/
theorem Clear.contained {line : List Char} (h : Clear line) : Contained line where
  one_line := h.oneLine
  closes before rest hsplit := by
    refine absurd ?_ h.quote_notMem
    rw [(splitFirst?_spec hsplit).1]
    exact List.mem_append_right _ (List.mem_cons_self ..)

/-- The last quote of a text is in one place only. -/
theorem append_quote_inj {before before' tail tail' : List Char}
    (h : before ++ '"' :: tail = before' ++ '"' :: tail') (ht : '"' ∉ tail) (ht' : '"' ∉ tail') :
    tail = tail' := by
  have hcut : ∀ {a s t : List Char}, '"' :: s = a ++ '"' :: t → '"' ∉ s → s = t := by
    intro a s t heq hs
    cases a with
    | nil => exact (List.cons.inj heq).2
    | cons c a =>
      refine absurd ?_ hs
      rw [(List.cons.inj heq).2]
      exact List.mem_append_right _ (List.mem_cons_self ..)
  rcases List.append_eq_append_iff.mp h with ⟨a, -, heq⟩ | ⟨a, -, heq⟩
  · exact hcut heq ht
  · exact (hcut heq ht').symm

/-- A scan that has not ended before a quote ends there at the latest, unless the quote is taken. -/
theorem closingFrom_overrun {taken : Bool} {c : Char} {head more tail : List Char}
    (hc : c ≠ '\\') (hmore : '"' ∈ more)
    (h : closingFrom taken (head ++ c :: '"' :: more) = some tail) : '"' ∈ tail := by
  induction head generalizing taken with
  | nil =>
    have hb : (c == '\\') = false := beq_eq_false_iff_ne.mpr hc
    rw [List.nil_append, closingFrom, hb] at h
    split at h
    · rwa [← Option.some.inj h]
    · split at h
      · rw [← Option.some.inj h]
        exact List.mem_cons_self ..
      · split at h
        · cases h
        · rwa [← Option.some.inj h]
  | cons d head ih =>
    rw [List.cons_append, closingFrom] at h
    split at h
    · exact ih h
    · split at h
      · rw [← Option.some.inj h]
        simp [hmore]
      · split at h
        · cases h
        · exact ih h

/-- The text of a literal never breaks its line. -/
theorem oneLine_literal {head cs tail : List Char} {c : Char} (hhead : OneLine head)
    (hc : isLineBreak c = false) (htail : OneLine tail) :
    OneLine (head ++ c :: '"' :: (literalBody cs ++ '"' :: tail)) := by
  intro d hd
  simp only [List.mem_append, List.mem_cons] at hd
  rcases hd with hd | rfl | rfl | hd | rfl | hd
  · exact hhead d hd
  · exact hc
  · rfl
  · rw [literalBody_eq_escapeFrom] at hd
    exact not_isLineBreak_of_mem_escapeFrom hd
  · rfl
  · exact htail d hd

/-- **A line with a literal**, which stands behind `c`, is contained exactly if nothing in front of
it is a quote or a line break and its text is closable. -/
theorem contained_literal {head cs tail : List Char} {c : Char} (hc : c ≠ '\\')
    (hclear : Clear [c]) (htail : Clear tail) :
    Contained (head ++ c :: '"' :: (literalBody cs ++ '"' :: tail)) ↔
      Clear head ∧ Closable cs := by
  have hquote : '"' ∈ literalBody cs ++ '"' :: tail :=
    List.mem_append_right _ (List.mem_cons_self ..)
  -- the line up to the literal, if there is no quote in front of it
  have hsplit : Clear head →
      splitFirst? '"' (head ++ c :: '"' :: (literalBody cs ++ '"' :: tail)) =
        some (head ++ [c], literalBody cs ++ '"' :: tail) := by
    intro hhead
    have hfront : '"' ∉ head ++ [c] := (clear_append.mpr ⟨hhead, hclear⟩).quote_notMem
    rw [← splitFirst?_append hfront, List.append_assoc, List.singleton_append]
  constructor
  · intro h
    have hnoquote : '"' ∉ head := by
      intro hmem
      -- the literal that opens in front leaves a quote behind it, wherever it closes
      obtain ⟨before, after, rfl, hbefore⟩ := List.eq_append_cons_of_mem hmem
      obtain ⟨left, hclosing, hleft⟩ := h.closes before _
        (by rw [List.append_assoc, List.cons_append, splitFirst?_append hbefore])
      exact hleft (closingFrom_overrun hc hquote hclosing)
    have hhead : Clear head := by
      intro d hd
      refine ⟨?_, h.one_line d (List.mem_append_left _ hd)⟩
      rintro rfl
      exact hnoquote hd
    obtain ⟨left, hclosing, hleft⟩ := h.closes _ _ (hsplit hhead)
    obtain ⟨body, hbody⟩ := closingFrom_suffix hclosing
    have hend : tail = left := append_quote_inj hbody htail.quote_notMem hleft
    exact ⟨hhead, (closing_literalBody cs tail).mp (by rw [hclosing, hend])⟩
  · rintro ⟨hhead, hcs⟩
    refine ⟨oneLine_literal hhead.oneLine (hclear.oneLine c (List.mem_singleton_self c))
      htail.oneLine, ?_⟩
    intro before rest hline
    rw [hsplit hhead] at hline
    obtain ⟨-, rfl⟩ := Prod.mk.inj (Option.some.inj hline)
    exact ⟨tail, (closing_literalBody cs tail).mpr hcs, htail.quote_notMem⟩

/-! ## Contained statements -/

section Statements

variable {var : String}

theorem createText_line (var text : String) :
    (Statement.createText var text).render.toList =
      ("var ".toList ++ var.toList ++ " = document.createTextNode".toList) ++ '(' :: '"' ::
        (literalBody text.toList ++ '"' :: ");".toList) := by
  have hopen : " = document.createTextNode(".toList =
      " = document.createTextNode".toList ++ ['('] := rfl
  have hquote : "\"".toList = ['"'] := rfl
  simp only [Statement.render, quoted, escape, String.toList_append, String.toList_ofList, hopen,
    hquote, List.append_assoc, List.cons_append, List.nil_append]

theorem assign_text_line (var : String) (path : List String) (raw : String) :
    (Statement.assign var path (.text raw)).render.toList =
      ((Statement.target var path).toList ++ [' ', '=']) ++ ' ' :: '"' ::
        (literalBody raw.toList ++ '"' :: ";".toList) := by
  have hopen : " = ".toList = [' ', '='] ++ [' '] := rfl
  have hquote : "\"".toList = ['"'] := rfl
  simp only [Statement.render, Operand.render, Statement.target, quoted, escape,
    String.toList_append, String.toList_ofList, hopen, hquote, List.append_assoc,
    List.cons_append, List.nil_append]

theorem assign_truth_line (var : String) (path : List String) :
    (Statement.assign var path .truth).render.toList =
      (Statement.target var path).toList ++ (" = ".toList ++ "true".toList ++ ";".toList) := by
  simp only [Statement.render, Operand.render, Statement.target, String.toList_append,
    List.append_assoc]

theorem clear_createText (hv : Clear var.toList) :
    Clear ("var ".toList ++ var.toList ++ " = document.createTextNode".toList) :=
  clear_append.mpr ⟨clear_append.mpr ⟨by decide, hv⟩, by decide⟩

theorem clear_target (hv : Clear var.toList) {path : List String} :
    Clear (Statement.target var path).toList ↔ ∀ name ∈ path, Clear name.toList := by
  have hdot : Clear ".".toList := by decide
  have hpath : Clear (path.foldr (fun name rest => "." ++ name ++ rest) "").toList ↔
      ∀ name ∈ path, Clear name.toList := by
    induction path with
    | nil => simp [Clear]
    | cons name path ih =>
      simp only [List.foldr_cons, String.toList_append, clear_append, and_iff_right hdot, ih,
        List.forall_mem_cons]
  rw [Statement.target, String.toList_append, clear_append, and_iff_right hv, hpath]

theorem contained_createText (hv : Clear var.toList) (text : String) :
    Contained (Statement.createText var text).render.toList ↔ Closable text.toList := by
  rw [createText_line, contained_literal (by decide) (by decide) (by decide)]
  exact and_iff_right (clear_createText hv)

theorem contained_assign_text (hv : Clear var.toList) (path : List String) (raw : String) :
    Contained (Statement.assign var path (.text raw)).render.toList ↔
      (∀ name ∈ path, Clear name.toList) ∧ Closable raw.toList := by
  have hequals : Clear [' ', '='] := by decide
  rw [assign_text_line, contained_literal (by decide) (by decide) (by decide), clear_append,
    and_iff_left hequals, clear_target hv]

theorem clear_assign_truth (hv : Clear var.toList) {path : List String}
    (hpath : ∀ name ∈ path, Clear name.toList) :
    Clear (Statement.assign var path .truth).render.toList := by
  rw [assign_truth_line]
  exact clear_append.mpr ⟨(clear_target hv).mpr hpath, by decide⟩

theorem oneLine_createText (hv : Clear var.toList) (text : String) :
    OneLine (Statement.createText var text).render.toList := by
  rw [createText_line]
  exact oneLine_literal (clear_createText hv).oneLine rfl (by decide)

theorem oneLine_assign (hv : Clear var.toList) {path : List String}
    (hpath : ∀ name ∈ path, Clear name.toList) (value : Operand) :
    OneLine (Statement.assign var path value).render.toList := by
  cases value with
  | truth => exact (clear_assign_truth hv hpath).oneLine
  | text raw =>
    have hhead : Clear ((Statement.target var path).toList ++ [' ', '=']) :=
      clear_append.mpr ⟨(clear_target hv).mpr hpath, by decide⟩
    rw [assign_text_line]
    exact oneLine_literal hhead.oneLine rfl (by decide)

end Statements

/-! ## Attributes -/

theorem clear_camelChars {cs : List Char} : Clear (camelChars cs) ↔ Clear cs := by
  have hiff : ∀ c, c = '"' ∨ isLineBreak c = true → (c ∈ camelChars cs ↔ c ∈ cs) := by
    intro c hc
    refine mem_camelChars ?_
    simp only [isLineBreak, Bool.or_eq_true, beq_iff_eq] at hc
    rcases hc with rfl | rfl | rfl <;> rfl
  have hclear : ∀ ds : List Char, Clear ds ↔
      ∀ c, c = '"' ∨ isLineBreak c = true → c ∉ ds := by
    intro ds
    constructor
    · rintro h c (rfl | hc) hmem
      · exact (h '"' hmem).1 rfl
      · rw [(h c hmem).2] at hc
        cases hc
    · intro h c hmem
      exact ⟨fun hc => h c (.inl hc) hmem,
        Bool.eq_false_iff.mpr fun hc => h c (.inr hc) hmem⟩
  rw [hclear, hclear]
  exact forall₂_congr fun c hc => not_congr (hiff c hc)

/-- The value keeps to its literal. Of a style this is asked of every declared value, and of the
declared names that they have no quote and no line break, since they are written as they are. -/
def Attribute.Closable (a : Attribute) : Prop :=
  if a.key = "style" then
    ∀ declaration ∈ styleDeclarations a.value.toList,
      Clear declaration.1 ∧ Text.Closable declaration.2
  else Text.Closable a.value.toList

/-- Every other attribute without a handler is set by one assignment, to `true` only if its value
is empty. -/
theorem Attribute.statements_single {a : Attribute} (hstyle : Rule.forKey a.key ≠ .style)
    (hevent : Rule.forKey a.key ≠ .event) (hkey : Clear a.key.toList) (var : String) :
    ∃ path value, a.statements var = [.assign var path value] ∧
      (∀ name ∈ path, Clear name.toList) ∧
      (value = .text a.value ∨ a.value = "" ∧ value = .truth) := by
  unfold Attribute.statements
  cases hr : Rule.forKey a.key with
  | style => exact absurd hr hstyle
  | className =>
    have hname : ∀ name ∈ ["className"], Clear name.toList := by decide
    exact ⟨_, _, rfl, hname, .inl rfl⟩
  | dataset =>
    refine ⟨_, _, rfl, ?_, .inl rfl⟩
    intro name hname
    simp only [List.mem_cons, List.not_mem_nil, or_false] at hname
    rcases hname with rfl | rfl
    · decide
    · rw [String.toList_ofList, clear_camelChars]
      exact fun c hc => hkey c (List.mem_of_mem_drop hc)
  | event => exact absurd hr hevent
  | property =>
    refine ⟨_, _, rfl, ?_, ?_⟩
    · intro name hname
      rw [List.mem_singleton.mp hname, camelCase, String.toList_ofList, clear_camelChars]
      exact hkey
    · split
      · rename_i hempty
        exact .inr ⟨String.isEmpty_iff.mp hempty, rfl⟩
      · exact .inl rfl

/-- **The statements of an attribute** without a handler are contained exactly if its value keeps
to its literals. -/
theorem Attribute.contained_iff {var : String} (hv : Clear var.toList) {a : Attribute}
    (hevent : Rule.forKey a.key ≠ .event) (hkey : Clear a.key.toList) :
    (∀ s ∈ a.statements var, Contained s.render.toList) ↔ a.Closable := by
  by_cases hstyle : Rule.forKey a.key = .style
  · have hname : Clear "style".toList := by decide
    rw [Attribute.Closable, if_pos (Rule.eq_style hstyle)]
    simp only [Attribute.statements, hstyle, List.forall_mem_map, contained_assign_text hv,
      List.forall_mem_cons, List.not_mem_nil, false_implies, implies_true, and_true,
      and_iff_right hname, String.toList_ofList, clear_camelChars]
  · have hkey' : a.key ≠ "style" := fun hk => hstyle (by simp [Rule.forKey, hk])
    obtain ⟨path, value, hs, hpath, hvalue⟩ := statements_single hstyle hevent hkey var
    rw [Attribute.Closable, if_neg hkey', hs, List.forall_mem_singleton]
    rcases hvalue with rfl | ⟨hempty, rfl⟩
    · rw [contained_assign_text hv]
      exact and_iff_right hpath
    · rw [hempty]
      exact iff_of_true (clear_assign_truth hv hpath).contained (by decide)

/-! ## All payloads -/

/-- **Which payloads stay inside their statement.** Text nodes and attributes are written on one
line each, but for styles; and their statements are contained exactly if the text, or what the
attribute sets, is closable. -/
theorem payload_contained_iff {var : String} (hv : Clear var.toList) :
    (∀ text : String,
      OneLine (Statement.createText var text).render.toList ∧
      (Contained (Statement.createText var text).render.toList ↔ Closable text.toList)) ∧
    ∀ a : Attribute, Attribute.Rule.forKey a.key ≠ .event → Clear a.key.toList →
      (Attribute.Rule.forKey a.key ≠ .style →
        ∀ s ∈ a.statements var, OneLine s.render.toList) ∧
      ((∀ s ∈ a.statements var, Contained s.render.toList) ↔ a.Closable) := by
  refine ⟨fun text => ⟨oneLine_createText hv text, contained_createText hv text⟩, ?_⟩
  intro a hevent hkey
  refine ⟨?_, Attribute.contained_iff hv hevent hkey⟩
  intro hstyle
  obtain ⟨path, value, hs, hpath, -⟩ := Attribute.statements_single hstyle hevent hkey var
  rw [hs, List.forall_mem_singleton]
  exact oneLine_assign hv hpath value

/-- A backslash in a path and a quote in a style, both of which stay where they are. -/
theorem payload_contained_iff_specimen :
    Clear "_a".toList ∧
    Contained (Statement.createText "_a" "C:\\dir \"x\"\n").render.toList ∧
    Attribute.Rule.forKey "style" ≠ .event ∧ Clear "style".toList ∧
    ∀ s ∈ Attribute.statements "_a" ⟨"style", "quotes: \"<\" \">\"; color: red"⟩,
      Contained s.render.toList := by
  have hv : Clear "_a".toList := by decide
  have hevent : Attribute.Rule.forKey "style" ≠ .event := by decide
  have hkey : Clear "style".toList := by decide
  have htext : Closable "C:\\dir \"x\"\n".toList := by decide
  have hstyle : Attribute.Closable ⟨"style", "quotes: \"<\" \">\"; color: red"⟩ := by
    rw [Attribute.Closable, if_pos rfl]
    decide
  exact ⟨hv, ((payload_contained_iff hv).1 _).2.mpr htext, hevent, hkey,
    ((payload_contained_iff hv).2 _ hevent hkey).2.mpr hstyle⟩

/-- Not every payload stays inside: a backslash at the end takes the quote behind the text, two
backslashes leave the quote behind them to close the literal, and a declared name may hold a quote
or break the line. -/
theorem payload_not_contained :
    Clear "_a".toList ∧
    ¬ Contained (Statement.createText "_a" "\\").render.toList ∧
    ¬ Contained (Statement.createText "_a" "\\\\\"").render.toList ∧
    ¬ (∀ s ∈ Attribute.statements "_a" ⟨"style", "a\"b: c"⟩, Contained s.render.toList) ∧
    ¬ (∀ s ∈ Attribute.statements "_a" ⟨"style", "a\nb: c"⟩, OneLine s.render.toList) := by
  have hv : Clear "_a".toList := by decide
  have hevent : Attribute.Rule.forKey "style" ≠ .event := by decide
  have hkey : Clear "style".toList := by decide
  refine ⟨hv, ?_, ?_, ?_, by decide⟩
  · rw [contained_createText hv]
    decide
  · rw [contained_createText hv]
    decide
  · rw [Attribute.contained_iff hv hevent hkey, Attribute.Closable, if_pos rfl]
    decide

end DomScript
