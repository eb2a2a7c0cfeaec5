/-
DomScript.Proofs.Script.Decode — reading a written script back.

`decode` cuts a text into its lines and reads each of them by itself. A line that starts with a
declaration is a creation. Any other line starts with a word, and what stands behind the word tells
an assignment from a call. `Legible` statements are those that a line determines: their words are
plain, their texts have no backslash, and they are neither listeners nor code.

* `readLine_render` — the line of a legible statement is read as that statement;
* `decode_renderScript` — the text of legible statements is read as those statements.
-/
import DomScript.Proofs.Text.Literal
import DomScript.Proofs.Text.Plain

namespace DomScript

/-! ## Readings -/

/-- What a line says. The value of an assignment is missing where it assigns `true`. -/
inductive Reading where
  | createElement (var : String) (tag : Tag)
  | createText (var : String) (value : String)
  | assign (target : String) (value : Option String)
  | appendChild (parent : String) (child : String)
  deriving DecidableEq

/-- The string that the literal of a text denotes. -/
def collapsed (raw : String) : String :=
  .ofList (Text.collapse raw.toList)

/-- The value of a right-hand side, if it is not `true`. -/
def Operand.value? : Operand → Option String
  | .truth => none
  | .text raw => some (collapsed raw)

/-- The left-hand side of an assignment, as it is written. -/
def Statement.target (var : String) (path : List String) : String :=
  var ++ path.foldr (fun name rest => "." ++ name ++ rest) ""

/-- What a statement says. Listeners and code are not read. -/
def Statement.reading? : Statement → Option Reading
  | .createElement var tag => some (.createElement var tag)
  | .createText var text => some (.createText var (collapsed text))
  | .assign var path value => some (.assign (Statement.target var path) value.value?)
  | .appendChild parent child => some (.appendChild parent child)
  | _ => none

/-! ## The decoder -/

namespace Decode

open Text

/-- What follows a mark at the start of a text. -/
def after? : List Char → List Char → Option (List Char)
  | [], cs => some cs
  | _ :: _, [] => none
  | m :: mark, c :: cs => if m = c then after? mark cs else none

/-- What precedes a mark at the end of a text. -/
def before? (mark cs : List Char) : Option (List Char) :=
  (after? mark.reverse cs.reverse).map List.reverse

/-- The characters in front of every creation. -/
def creationMark : List Char :=
  "var ".toList

/-- What stands between the variable of a new element and its tag. -/
def elementMark : List Char :=
  "= document.createElement(\"".toList

/-- What stands between the variable of a new text node and its text. -/
def textMark : List Char :=
  "= document.createTextNode(\"".toList

/-- The method that appends a child. -/
def appendMark : List Char :=
  ".appendChild".toList

/-- Read a creation from its variable on. -/
def readCreation (cs : List Char) : Option Reading :=
  match splitFirst? ' ' cs with
  | none => none
  | some (var, rest) =>
    match after? elementMark rest with
    | some rest =>
      match splitFirst? '"' rest with
      | some (tag, [')', ';']) => some (.createElement (.ofList var) ⟨.ofList tag⟩)
      | _ => none
    | none =>
      match (after? textMark rest).bind readLiteral with
      | some (value, [')', ';']) => some (.createText (.ofList var) (.ofList value))
      | _ => none

/-- Whether a character goes on with a word at the start of a line. -/
def inWord (c : Char) : Bool :=
  c != ' ' && c != '('

/-- Read an assignment or a call: its word, and what stands behind it. -/
def readUse (cs : List Char) : Option Reading :=
  let word := cs.takeWhile inWord
  match cs.dropWhile inWord with
  | ' ' :: '=' :: ' ' :: '"' :: rest =>
    match readLiteral rest with
    | some (value, [';']) => some (.assign (.ofList word) (some (.ofList value)))
    | _ => none
  | [' ', '=', ' ', 't', 'r', 'u', 'e', ';'] => some (.assign (.ofList word) none)
  | '(' :: rest =>
    match before? appendMark word, splitFirst? ')' rest with
    | some parent, some (child, [';']) => some (.appendChild (.ofList parent) (.ofList child))
    | _, _ => none
  | _ => none

/-- Read a line. -/
def readLine (cs : List Char) : Option Reading :=
  match after? creationMark cs with
  | some rest => readCreation rest
  | none => readUse cs

/-- Read a text whose lines all end with a line break. -/
def decode (text : String) : Option (List Reading) :=
  let lines := splitAll '\n' text.toList
  if lines.getLast? = some [] then lines.dropLast.mapM readLine else none

end Decode

/-! ## Legible statements -/

/-- The text of a right-hand side has no backslash. -/
def Operand.Legible : Operand → Prop
  | .truth => True
  | .text raw => '\\' ∉ raw.toList

/-- A statement that its line determines. -/
def Statement.Legible : Statement → Prop
  | .createElement var tag => Text.Plain var.toList ∧ Text.Plain tag.name.toList
  | .createText var text => Text.Plain var.toList ∧ '\\' ∉ text.toList
  | .assign var path value =>
    Text.Plain var.toList ∧ path ≠ [] ∧ (∀ name ∈ path, Text.Plain name.toList) ∧ value.Legible
  | .appendChild parent child => Text.Plain parent.toList ∧ Text.Plain child.toList
  | _ => False

namespace Decode

open Text

/-! ## Cutting at marks -/

theorem after?_append (mark rest : List Char) : after? mark (mark ++ rest) = some rest := by
  induction mark with
  | nil => rfl
  | cons m mark ih => rw [List.cons_append, after?, if_pos rfl, ih]

theorem append_of_after? {mark cs rest : List Char} (h : after? mark cs = some rest) :
    cs = mark ++ rest := by
  induction mark generalizing cs with
  | nil => exact Option.some.inj h
  | cons m mark ih =>
    cases cs with
    | nil => cases h
    | cons c cs =>
      rw [after?] at h
      split at h
      · rename_i hmc
        rw [← hmc, ih h, List.cons_append]
      · cases h

theorem before?_append (mark rest : List Char) : before? mark (rest ++ mark) = some rest := by
  rw [before?, List.reverse_append, after?_append, Option.map_some, List.reverse_reverse]

/-! ## Words -/

theorem inWord_of_isPlain {c : Char} (h : isPlain c = true) : inWord c = true := by
  unfold inWord
  rw [Bool.and_eq_true, bne_iff_ne, bne_iff_ne]
  constructor
  · rintro rfl
    cases h
  · rintro rfl
    cases h

section Word

variable {word : List Char} {c : Char}

theorem takeWhile_word (hw : Plain word) (hc : inWord c = false) (rest : List Char) :
    (word ++ c :: rest).takeWhile inWord = word := by
  rw [List.takeWhile_append_of_pos fun d hd => inWord_of_isPlain (hw d hd),
    List.takeWhile_cons_of_neg (by simp [hc]), List.append_nil]

theorem dropWhile_word (hw : Plain word) (hc : inWord c = false) (rest : List Char) :
    (word ++ c :: rest).dropWhile inWord = c :: rest := by
  rw [List.dropWhile_append_of_pos fun d hd => inWord_of_isPlain (hw d hd),
    List.dropWhile_cons_of_neg (by simp [hc])]

/-- A line that starts with a word with a dot in it is no creation. -/
theorem readLine_word (hw : Plain word) (hdot : '.' ∈ word) (hc : inWord c = false)
    (rest : List Char) : readLine (word ++ c :: rest) = readUse (word ++ c :: rest) := by
  unfold readLine
  cases h : after? creationMark (word ++ c :: rest) with
  | none => rfl
  | some after =>
    -- the word would have to be the one of a creation
    have hvar : word = ['v', 'a', 'r'] := by
      rw [← takeWhile_word hw hc rest, append_of_after? h]
      rfl
    rw [hvar] at hdot
    exact absurd hdot (by decide)

end Word

/-! ## Lines -/

section Lines

variable {var parent child text : String} {tag : Tag} {path : List String} {value : Operand}

theorem readLine_createElement (hv : Plain var.toList) (ht : Plain tag.name.toList) :
    readLine (Statement.createElement var tag).render.toList =
      some (.createElement var tag) := by
  have hmark : " = document.createElement(\"".toList = ' ' :: elementMark := rfl
  have hend : "\");".toList = ['"', ')', ';'] := rfl
  have hline : (Statement.createElement var tag).render.toList =
      creationMark ++ (var.toList ++ ' ' :: (elementMark ++ (tag.name.toList ++ '"' ::
        [')', ';']))) := by
    simp only [Statement.render, String.toList_append, hmark, hend, creationMark,
      List.append_assoc, List.cons_append]
  have hspace : ' ' ∉ var.toList := hv.notMem rfl
  have hquote : '"' ∉ tag.name.toList := ht.notMem rfl
  rw [hline, readLine, after?_append]
  simp only [readCreation, splitFirst?_append hspace, after?_append,
    splitFirst?_append hquote, String.ofList_toList]

/-- A written text is read from behind its opening quote. -/
theorem readLiteral_escape (ht : '\\' ∉ text.toList) (rest : List Char) :
    readLiteral ((escape text).toList ++ '"' :: rest) = some (collapse text.toList, rest) := by
  rw [escape, String.toList_ofList]
  exact readLiteral_literalBody ht rest

theorem readLine_createText (hv : Plain var.toList) (ht : '\\' ∉ text.toList) :
    readLine (Statement.createText var text).render.toList =
      some (.createText var (collapsed text)) := by
  have hmark : " = document.createTextNode(".toList ++ "\"".toList = ' ' :: textMark := rfl
  have hend : "\"".toList ++ ");".toList = '"' :: [')', ';'] := rfl
  have hline : (Statement.createText var text).render.toList =
      creationMark ++ (var.toList ++ ' ' :: (textMark ++ ((escape text).toList ++ '"' ::
        [')', ';']))) := by
    rw [← hend, ← List.cons_append, ← hmark]
    simp only [Statement.render, quoted, String.toList_append, creationMark, List.append_assoc]
  have hother : after? elementMark (textMark ++ ((escape text).toList ++ '"' ::
      [')', ';'])) = none := rfl
  have hspace : ' ' ∉ var.toList := hv.notMem rfl
  rw [hline, readLine, after?_append]
  simp only [readCreation, splitFirst?_append hspace, hother, after?_append,
    Option.bind_some, readLiteral_escape ht, String.ofList_toList, collapsed]

/-- The left-hand side of an assignment is a word with a dot in it. -/
theorem plain_target (hv : Plain var.toList) (hp : ∀ name ∈ path, Plain name.toList) :
    Plain (Statement.target var path).toList := by
  rw [Statement.target, String.toList_append]
  refine hv.append ?_
  induction path with
  | nil =>
    intro c hc
    simp at hc
  | cons name path ih =>
    have hdot : Plain ".".toList := by decide
    rw [List.foldr_cons, String.toList_append, String.toList_append]
    exact (hdot.append (hp name (List.mem_cons_self ..))).append
      (ih fun n hn => hp n (List.mem_cons_of_mem _ hn))

theorem dot_mem_target (hne : path ≠ []) : '.' ∈ (Statement.target var path).toList := by
  obtain ⟨name, path, rfl⟩ := List.exists_cons_of_ne_nil hne
  have hdot : '.' ∈ ".".toList := by decide
  simp only [Statement.target, List.foldr_cons, String.toList_append, List.mem_append, hdot,
    true_or, or_true]

theorem readLine_assign (hv : Plain var.toList) (hne : path ≠ [])
    (hp : ∀ name ∈ path, Plain name.toList) (hvalue : value.Legible) :
    readLine (Statement.assign var path value).render.toList =
      some (.assign (Statement.target var path) value.value?) := by
  have hplain := plain_target hv hp
  have hdot : '.' ∈ (Statement.target var path).toList := dot_mem_target hne
  have hspace : inWord ' ' = false := rfl
  cases value with
  | truth =>
    have hend : " = ".toList ++ ("true".toList ++ ";".toList) =
        ' ' :: ['=', ' ', 't', 'r', 'u', 'e', ';'] := rfl
    have hline : (Statement.assign var path .truth).render.toList =
        (Statement.target var path).toList ++ ' ' :: ['=', ' ', 't', 'r', 'u', 'e', ';'] := by
      rw [← hend]
      simp only [Statement.render, Operand.render, Statement.target, String.toList_append,
        List.append_assoc]
    rw [hline, readLine_word hplain hdot hspace]
    simp only [readUse, takeWhile_word hplain hspace, dropWhile_word hplain hspace,
      String.ofList_toList, Operand.value?]
  | text raw =>
    have hstart : " = ".toList ++ "\"".toList = [' ', '=', ' ', '"'] := rfl
    have hend : "\"".toList ++ ";".toList = ['"', ';'] := rfl
    have hline : (Statement.assign var path (.text raw)).render.toList =
        (Statement.target var path).toList ++ ((" = ".toList ++ "\"".toList) ++
          ((escape raw).toList ++ ("\"".toList ++ ";".toList))) := by
      simp only [Statement.render, Operand.render, quoted, Statement.target, String.toList_append,
        List.append_assoc]
    rw [hstart, hend, List.cons_append, List.cons_append, List.cons_append,
      List.singleton_append] at hline
    rw [hline, readLine_word hplain hdot hspace]
    simp only [readUse, takeWhile_word hplain hspace, dropWhile_word hplain hspace,
      readLiteral_escape hvalue, String.ofList_toList, Operand.value?, collapsed]

theorem readLine_appendChild (hp : Plain parent.toList) (hc : Plain child.toList) :
    readLine (Statement.appendChild parent child).render.toList =
      some (.appendChild parent child) := by
  have hmark : ".appendChild(".toList = appendMark ++ ['('] := rfl
  have hend : ");".toList = ')' :: [';'] := rfl
  have hline : (Statement.appendChild parent child).render.toList =
      (parent.toList ++ appendMark) ++ '(' :: (child.toList ++ ')' :: [';']) := by
    simp only [Statement.render, String.toList_append, hmark, hend, List.append_assoc,
      List.cons_append, List.nil_append]
  have hword : Plain (parent.toList ++ appendMark) := hp.append (by decide)
  have hdot : '.' ∈ parent.toList ++ appendMark := List.mem_append_right _ (by decide)
  have hparen : inWord '(' = false := rfl
  have hclose : ')' ∉ child.toList := hc.notMem rfl
  rw [hline, readLine_word hword hdot hparen]
  simp only [readUse, takeWhile_word hword hparen, dropWhile_word hword hparen,
    before?_append, splitFirst?_append hclose, String.ofList_toList]

end Lines

/-- **One line.** The line of a legible statement is read as that statement. -/
theorem readLine_render {s : Statement} (h : s.Legible) :
    ∃ r, s.reading? = some r ∧ readLine s.render.toList = some r := by
  cases s with
  | createElement var tag => exact ⟨_, rfl, readLine_createElement h.1 h.2⟩
  | createText var text => exact ⟨_, rfl, readLine_createText h.1 h.2⟩
  | assign var path value => exact ⟨_, rfl, readLine_assign h.1 h.2.1 h.2.2.1 h.2.2.2⟩
  | appendChild parent child => exact ⟨_, rfl, readLine_appendChild h.1 h.2⟩
  | listen var event handler => exact h.elim
  | code text => exact h.elim

/-! ## Scripts -/

theorem newline_notMem_escape {text : String} (h : '\\' ∉ text.toList) :
    '\n' ∉ (escape text).toList := by
  rw [escape, String.toList_ofList, literalBody_eq h]
  intro hmem
  obtain ⟨c, hc, hmem⟩ := List.mem_flatMap.mp hmem
  unfold escapeQuote at hmem
  split at hmem
  · exact absurd hmem (by decide)
  · rw [← List.mem_singleton.mp hmem] at hc
    rcases mem_collapse hc with hc | ⟨-, hc⟩
    · exact absurd hc (by decide)
    · cases hc

/-- A legible statement takes one line. -/
theorem newline_notMem_render {s : Statement} (h : s.Legible) : '\n' ∉ s.render.toList := by
  cases s with
  | createElement var tag =>
    have hv : '\n' ∉ var.toList := h.1.notMem rfl
    have ht : '\n' ∉ tag.name.toList := h.2.notMem rfl
    simp only [Statement.render, String.toList_append, List.mem_append, not_or]
    exact ⟨⟨⟨⟨by decide, hv⟩, by decide⟩, ht⟩, by decide⟩
  | createText var text =>
    have hv : '\n' ∉ var.toList := h.1.notMem rfl
    have ht := newline_notMem_escape h.2
    simp only [Statement.render, quoted, String.toList_append, List.mem_append, not_or]
    exact ⟨⟨⟨⟨by decide, hv⟩, by decide⟩, ⟨by decide, ht⟩, by decide⟩, by decide⟩
  | assign var path value =>
    have ht : '\n' ∉ (Statement.target var path).toList := (plain_target h.1 h.2.2.1).notMem rfl
    have hvalue : '\n' ∉ value.render.toList := by
      cases value with
      | truth => decide
      | text raw =>
        have hr := newline_notMem_escape h.2.2.2
        simp only [Operand.render, quoted, String.toList_append, List.mem_append, not_or]
        exact ⟨⟨by decide, hr⟩, by decide⟩
    show '\n' ∉ (Statement.target var path ++ " = " ++ value.render ++ ";").toList
    simp only [String.toList_append, List.mem_append, not_or]
    exact ⟨⟨⟨ht, by decide⟩, hvalue⟩, by decide⟩
  | appendChild parent child =>
    have hp : '\n' ∉ parent.toList := h.1.notMem rfl
    have hc : '\n' ∉ child.toList := h.2.notMem rfl
    simp only [Statement.render, String.toList_append, List.mem_append, not_or]
    exact ⟨⟨⟨hp, by decide⟩, hc⟩, by decide⟩
  | listen var event handler => exact h.elim
  | code text => exact h.elim

theorem mapM_readLine {script : List Statement} (h : ∀ s ∈ script, s.Legible) :
    ∃ readings, script.mapM Statement.reading? = some readings ∧
      (script.map fun s => s.render.toList).mapM readLine = some readings := by
  induction script with
  | nil => exact ⟨[], rfl, rfl⟩
  | cons s script ih =>
    obtain ⟨r, hr, hline⟩ := readLine_render (h s (List.mem_cons_self ..))
    obtain ⟨rs, hrs, hlines⟩ := ih fun t ht => h t (List.mem_cons_of_mem _ ht)
    exact ⟨r :: rs, by simp [List.mapM_cons, hr, hrs], by simp [List.mapM_cons, hline, hlines]⟩

/-- **A whole script.** The text of legible statements is read as those statements. -/
theorem decode_renderScript {script : List Statement} (h : ∀ s ∈ script, s.Legible) :
    ∃ readings, script.mapM Statement.reading? = some readings ∧
      decode (renderScript script) = some readings := by
  obtain ⟨readings, hread, hlines⟩ := mapM_readLine h
  refine ⟨readings, hread, ?_⟩
  have hbreak : "\n".toList = ['\n'] := rfl
  have htext : (renderScript script).toList =
      (script.map fun s => s.render.toList).flatMap (· ++ ['\n']) := by
    simp [renderScript, String.toList_join, List.flatMap_map, hbreak]
  have hsplit : splitAll '\n' (renderScript script).toList =
      (script.map fun s => s.render.toList) ++ [[]] := by
    rw [htext]
    refine splitAll_lines fun line hline => ?_
    obtain ⟨s, hs, rfl⟩ := List.mem_map.mp hline
    exact newline_notMem_render (h s hs)
  unfold decode
  simp only [hsplit, List.getLast?_append, List.getLast?_singleton, Option.some_or, if_true,
    List.dropLast_concat]
  exact hlines

/-- A line each for a creation and an assignment, the quotes of the value with their backslashes. -/
example : decode "var a = document.createElement(\"b\");\na.id = \"x \\\"y\\\"\";\n" =
    some [.createElement "a" ⟨"b"⟩, .assign "a.id" (some "x \"y\"")] := by
  decide +kernel

end Decode

end DomScript
