/-
DomScript.Proofs.Text.Plain — words that can be told from what is written around them.

A plain character is neither a blank nor one that ends a word in a written statement or starts an
escape. What the model does to words keeps them plain:

* `plain_upperCase`, `plain_camelChars` — names in camel case are as plain as the names they come
  from;
* `mem_camelChars` — and camel casing neither adds nor loses a character that is not plain;
* `plain_name` — generated variables are as plain as their stem.
-/
import DomScript.Proofs.Text.LetterCase
import DomScript.Proofs.Text.Split
import DomScript.Statement
import DomScript.VariableNames

namespace DomScript

namespace Text

/-! ## Plain characters -/

/-- Neither an ASCII blank nor a quote, a parenthesis, an equals sign or a backslash. -/
def isPlain (c : Char) : Bool :=
  !(isAsciiBlank c || c == '"' || c == '(' || c == ')' || c == '=' || c == '\\')

/-- All characters are plain. -/
def Plain (cs : List Char) : Prop :=
  ∀ c ∈ cs, isPlain c = true

instance (cs : List Char) : Decidable (Plain cs) :=
  decidable_of_iff (cs.all isPlain = true) List.all_eq_true

theorem Plain.append {cs ds : List Char} (hc : Plain cs) (hd : Plain ds) : Plain (cs ++ ds) := by
  intro c h
  rcases List.mem_append.mp h with h | h
  · exact hc c h
  · exact hd c h

theorem Plain.notMem {cs : List Char} {c : Char} (h : Plain cs) (hc : isPlain c = false) :
    c ∉ cs := by
  intro hmem
  rw [h c hmem] at hc
  cases hc

/-! ## Styles -/

/-- The value of a declaration has only characters of the style. -/
theorem mem_of_styleDeclarations {style property value : List Char} {c : Char}
    (h : (property, value) ∈ styleDeclarations style) (hc : c ∈ value) : c ∈ style := by
  obtain ⟨part, hpart, hdecl⟩ := List.mem_filterMap.mp h
  obtain ⟨⟨before, after⟩, hsplit, heq⟩ := Option.map_eq_some_iff.mp hdecl
  obtain ⟨-, rfl⟩ := Prod.mk.inj heq
  exact mem_of_mem_splitAll hpart
    (mem_of_mem_trim (mem_of_splitFirst? hsplit (.inr (mem_of_mem_trim hc))))

/-! ## Letter case -/

theorem isPlain_of_isHigh {c : Char} (h : isHigh c.toNat = true) : isPlain c = true := by
  have hne : ∀ d : Char, isHigh d.toNat = false → c ≠ d := by
    rintro d hd rfl
    rw [h] at hd
    cases hd
  simp only [isPlain, isAsciiBlank, Bool.not_eq_true', Bool.or_eq_false_iff, beq_eq_false_iff_ne]
  refine ⟨⟨⟨⟨⟨⟨⟨⟨⟨?_, ?_⟩, ?_⟩, ?_⟩, ?_⟩, ?_⟩, ?_⟩, ?_⟩, ?_⟩, ?_⟩ <;> exact hne _ (by decide)

/-- The case tables lead to plain characters only, and a character in neither stays as it is. -/
theorem upperCase_eq_or_plain (c : Char) : upperCase c = [c] ∨ Plain (upperCase c) := by
  refine (upperCase_eq_or_high c).imp_right fun h d hd => ?_
  rcases h d hd with hhigh | rfl
  · exact isPlain_of_isHigh hhigh
  · rfl

theorem plain_upperCase {c : Char} (h : isPlain c = true) : Plain (upperCase c) := by
  rcases upperCase_eq_or_plain c with hc | hc
  · rw [hc]
    intro d hd
    rwa [List.mem_singleton.mp hd]
  · exact hc

/-- A character that is not plain has no upper case. -/
theorem upperCase_of_not_plain {c : Char} (h : isPlain c = false) : upperCase c = [c] := by
  simp only [isPlain, isAsciiBlank, Bool.not_eq_false', Bool.or_eq_true, beq_iff_eq] at h
  rcases h with ((((((((rfl | rfl) | rfl) | rfl) | rfl) | rfl) | rfl) | rfl) | rfl) | rfl <;> rfl

theorem plain_capitalize {cs : List Char} (h : Plain cs) : Plain (capitalize cs) := by
  cases cs with
  | nil => exact h
  | cons c cs =>
    exact (plain_upperCase (h c (List.mem_cons_self ..))).append
      fun d hd => h d (List.mem_cons_of_mem _ hd)

theorem plain_camelChars {cs : List Char} (h : Plain cs) : Plain (camelChars cs) := by
  have hparts : ∀ part ∈ splitAll '-' cs, Plain part :=
    fun part hp c hc => h c (mem_of_mem_splitAll hp hc)
  unfold camelChars
  split
  · intro c hc
    simp at hc
  · rename_i part parts hsplit
    rw [hsplit] at hparts
    refine (hparts part (List.mem_cons_self ..)).append fun c hc => ?_
    obtain ⟨capital, hcap, hc⟩ := List.mem_flatten.mp hc
    obtain ⟨p, hp, rfl⟩ := List.mem_map.mp hcap
    exact plain_capitalize (hparts p (List.mem_cons_of_mem _ hp)) c hc

theorem mem_capitalize {c : Char} (h : isPlain c = false) {cs : List Char} :
    c ∈ capitalize cs ↔ c ∈ cs := by
  cases cs with
  | nil => exact Iff.rfl
  | cons d ds =>
    have hd : c ∈ upperCase d ↔ c = d := by
      rcases upperCase_eq_or_plain d with hd | hd
      · rw [hd, List.mem_singleton]
      · refine iff_of_false (hd.notMem h) ?_
        rintro rfl
        exact hd.notMem h (by rw [upperCase_of_not_plain h]; exact List.mem_singleton_self c)
    rw [capitalize, List.mem_append, hd, List.mem_cons]

/-- **Camel casing** neither adds nor loses a character that is not plain. -/
theorem mem_camelChars {c : Char} (h : isPlain c = false) {cs : List Char} :
    c ∈ camelChars cs ↔ c ∈ cs := by
  have hdash : c ≠ '-' := by
    rintro rfl
    cases h
  have hparts : c ∈ camelChars cs ↔ ∃ part ∈ splitAll '-' cs, c ∈ part := by
    unfold camelChars
    split
    · rename_i hsplit
      simp [hsplit]
    · rename_i part parts hsplit
      simp only [hsplit, ← List.flatMap_def, List.mem_append, List.mem_flatMap, mem_capitalize h,
        List.mem_cons, exists_eq_or_imp]
  rw [hparts]
  constructor
  · rintro ⟨part, hpart, hmem⟩
    exact mem_of_mem_splitAll hpart hmem
  · exact exists_mem_splitAll hdash

end Text

/-! ## Variables -/

theorem VariableNames.plain_name {v : VariableNames} (h : Text.Plain v.stem.toList) :
    Text.Plain v.name.toList := by
  have hletter : ∀ l : Letter, Text.isPlain l.toChar = true := by decide
  rw [name, String.toList_append, String.toList_ofList]
  refine h.append fun c hc => ?_
  obtain ⟨l, -, rfl⟩ := List.mem_map.mp hc
  exact hletter l

end DomScript
