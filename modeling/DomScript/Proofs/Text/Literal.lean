/-
DomScript.Proofs.Text.Literal — what a written literal denotes.

`readLiteral` reads a double-quoted literal from behind its opening quote, with the escapes of one
character; it stands for the reader of the script. `collapse` says what becomes of the blanks of a
text, run by run.

* `literalBody_eq` — a text without backslashes is written with its blanks collapsed and a
  backslash before every quote;
* `readLiteral_literalBody` — which denotes the text with its blanks collapsed.
-/
import DomScript.Text.Spelling

namespace DomScript.Text

/-! ## Reading literals -/

/-- The character that a backslash and `c` stand for. Escapes by number and line continuations,
which take more characters or none, are not read. -/
def escapeValue? (c : Char) : Option Char :=
  if c == 'n' then some '\n'
  else if c == 't' then some '\t'
  else if c == 'r' then some '\r'
  else if c == 'b' then some '\x08'
  else if c == 'f' then some '\x0c'
  else if c == 'v' then some '\x0b'
  else if c == 'x' || c == 'u' || c.isDigit || isLineBreak c then none
  else some c

/-- The value of a literal, from behind its opening quote, and what follows its closing quote. A
literal does not go over the end of a line. -/
def readLiteral : List Char → Option (List Char × List Char)
  | [] => none
  | '"' :: rest => some ([], rest)
  | '\\' :: c :: rest =>
    match escapeValue? c, readLiteral rest with
    | some v, some (value, rest) => some (v :: value, rest)
    | _, _ => none
  | c :: rest =>
    if c == '\\' || isLineBreak c then none
    else (readLiteral rest).map fun (value, rest) => (c :: value, rest)

/-! ## Collapsing blanks -/

/-- What a run of ASCII blanks leaves: nothing if all are line breaks, and one space otherwise. -/
def collapseRun (run : List Char) : List Char :=
  if run.all isLineBreak then [] else [' ']

/-- A text with its blanks collapsed, `run` being the blanks right before it. -/
def collapseFrom (run : List Char) : List Char → List Char
  | [] => collapseRun run
  | c :: cs =>
    if isAsciiBlank c then collapseFrom (run ++ [c]) cs
    else collapseRun run ++ c :: collapseFrom [] cs

/-- A text with every maximal run of ASCII blanks collapsed. -/
def collapse (cs : List Char) : List Char :=
  collapseFrom [] cs

/-- The same, decided at each character: `spaced` says whether the run before has left its space. -/
def squeeze (spaced : Bool) : List Char → List Char
  | [] => []
  | c :: cs =>
    if isAsciiBlank c then
      if spaced then squeeze true cs
      else if isLineBreak c then squeeze false cs
      else ' ' :: squeeze true cs
    else c :: squeeze false cs

theorem isAsciiBlank_of_isLineBreak {c : Char} (h : isLineBreak c = true) :
    isAsciiBlank c = true := by
  simp only [isLineBreak, isAsciiBlank, Bool.or_eq_true] at *
  rcases h with h | h <;> simp [h]

/-- The blanks of a run matter only by whether they have left a space. -/
theorem collapseFrom_eq (run cs : List Char) :
    collapseFrom run cs = collapseRun run ++ squeeze (!run.all isLineBreak) cs := by
  induction cs generalizing run with
  | nil => simp [collapseFrom, squeeze]
  | cons c cs ih =>
    simp only [collapseFrom, squeeze]
    split
    · rw [ih]
      unfold collapseRun
      by_cases hrun : run.all isLineBreak <;> by_cases hc : isLineBreak c <;> simp [hrun, hc]
    · rw [ih]
      rfl

theorem collapse_eq (cs : List Char) : collapse cs = squeeze false cs :=
  collapseFrom_eq [] cs

/-! ## Writing literals -/

/-- A quote is written with a backslash. -/
def escapeQuote (c : Char) : List Char :=
  if c == '"' then ['\\', '"'] else [c]

/-- The written form while a run of blanks is being passed over, and outside of one. -/
theorem substituteFrom_literalRule {cs : List Char} (h : '\\' ∉ cs) :
    substituteFrom literalRule 0 cs = (squeeze false cs).flatMap escapeQuote ∧
      substituteFrom literalRule (cs.takeWhile isAsciiBlank).length cs =
        (squeeze true cs).flatMap escapeQuote := by
  induction cs with
  | nil => exact ⟨rfl, rfl⟩
  | cons c cs ih =>
    simp only [List.mem_cons, not_or] at h
    obtain ⟨hout, hin⟩ := ih h.2
    by_cases hb : isAsciiBlank c
    · refine ⟨?_, by simpa [hb, squeeze, substituteFrom] using hin⟩
      by_cases hl : isLineBreak c
      · simpa [substituteFrom, literalRule, hl, hb, squeeze] using hout
      · simpa [substituteFrom, literalRule, hl, hb, squeeze, escapeQuote] using hin
    · have hl : isLineBreak c = false :=
        Bool.eq_false_iff.mpr fun hl => hb (isAsciiBlank_of_isLineBreak hl)
      have hstep : substituteFrom literalRule 0 (c :: cs) =
          escapeQuote c ++ substituteFrom literalRule 0 cs := by
        by_cases hq : c = '"'
        · subst hq
          rfl
        · simp [substituteFrom, literalRule, hl, hb, Ne.symm h.1, hq, escapeQuote]
      constructor
      · rw [hstep, hout]
        simp [squeeze, hb]
      · rw [List.takeWhile_cons_of_neg hb, List.length_nil, hstep, hout]
        simp [squeeze, hb]

/-- **What is written** for a text without backslashes. -/
theorem literalBody_eq {cs : List Char} (h : '\\' ∉ cs) :
    literalBody cs = (collapse cs).flatMap escapeQuote := by
  rw [collapse_eq]
  exact (substituteFrom_literalRule h).1

/-! ## Reading what was written -/

/-- Of blanks only spaces are left. -/
theorem mem_squeeze {spaced : Bool} {cs : List Char} {c : Char} (h : c ∈ squeeze spaced cs) :
    c = ' ' ∨ c ∈ cs ∧ isAsciiBlank c = false := by
  induction cs generalizing spaced with
  | nil => simp [squeeze] at h
  | cons d ds ih =>
    have hweak : (c = ' ' ∨ c ∈ ds ∧ isAsciiBlank c = false) →
        c = ' ' ∨ c ∈ d :: ds ∧ isAsciiBlank c = false := by
      rintro (h | ⟨h, hb⟩)
      · exact .inl h
      · exact .inr ⟨List.mem_cons_of_mem _ h, hb⟩
    simp only [squeeze] at h
    split at h
    · split at h
      · exact hweak (ih h)
      · split at h
        · exact hweak (ih h)
        · rcases List.mem_cons.mp h with h | h
          · exact .inl h
          · exact hweak (ih h)
    · rename_i hb
      rcases List.mem_cons.mp h with rfl | h
      · exact .inr ⟨List.mem_cons_self .., by simpa using hb⟩
      · exact hweak (ih h)

theorem mem_collapse {cs : List Char} {c : Char} (h : c ∈ collapse cs) :
    c = ' ' ∨ c ∈ cs ∧ isAsciiBlank c = false := by
  rw [collapse_eq] at h
  exact mem_squeeze h

theorem readLiteral_escapeQuote {value rest : List Char} (hb : '\\' ∉ value)
    (hl : ∀ c ∈ value, isLineBreak c = false) :
    readLiteral (value.flatMap escapeQuote ++ '"' :: rest) = some (value, rest) := by
  induction value with
  | nil => simp [readLiteral]
  | cons c value ih =>
    simp only [List.mem_cons, not_or] at hb
    have hrest := ih hb.2 fun c hc => hl c (List.mem_cons_of_mem _ hc)
    rw [List.flatMap_cons, List.append_assoc]
    by_cases hq : c = '"'
    · subst hq
      show (match escapeValue? '"', readLiteral (value.flatMap escapeQuote ++ '"' :: rest) with
        | some v, some (value, rest) => some (v :: value, rest)
        | _, _ => none) = _
      rw [hrest]
      rfl
    · have hc : (c == '\\' || isLineBreak c) = false := by
        simp [Ne.symm hb.1, hl c (List.mem_cons_self ..)]
      have hesc : escapeQuote c = [c] := by simp [escapeQuote, hq]
      rw [hesc, List.singleton_append, readLiteral]
      · rw [hc, hrest]
        rfl
      · exact hq
      · rintro d ds rfl
        exact absurd rfl hb.1

/-- **What a written text denotes**: the text with its blanks collapsed. -/
theorem readLiteral_literalBody {cs : List Char} (h : '\\' ∉ cs) (rest : List Char) :
    readLiteral (literalBody cs ++ '"' :: rest) = some (collapse cs, rest) := by
  rw [literalBody_eq h]
  refine readLiteral_escapeQuote (fun hc => ?_) fun c hc => ?_
  · rcases mem_collapse hc with hc | ⟨hc, -⟩
    · exact absurd hc (by decide)
    · exact h hc
  · rcases mem_collapse hc with rfl | ⟨-, hc⟩
    · rfl
    · refine Bool.eq_false_iff.mpr fun hl => ?_
      rw [isAsciiBlank_of_isLineBreak hl] at hc
      cases hc

end DomScript.Text
