/-
DomScript.Proofs.Text.Blocks — which texts are safe in a literal, told block by block.

A text is safe in a literal if the scan of the literal ends at the quote written behind the text,
and not at a quote of the text or further on. Line breaks are not written, so that the backslashes
on both sides of one come to stand next to each other; what counts is therefore the number of
backslashes in each maximal block of backslashes and line breaks, and of these blocks only the ones
in front of a quote or at the end of the text matter.

* `mem_blocks_iff` — the blocks that a pass over the text collects are its maximal ones;
* `closeAt_eq_length_iff` — asking for the place of the closing quote is asking for what follows it,
  as long as no line break is written;
* `literal_ends_iff` — the literal of a text ends where it should iff every maximal block is safe.
-/
import Mathlib.Algebra.Ring.Parity
import DomScript.Proofs.Text.Closing
import DomScript.Statement

namespace DomScript.Text

/-! ## Maximal blocks -/

/-- A maximal block of backslashes and line breaks, between `before` and `after`. It may be
empty. -/
structure MaximalBlock (cs before block after : List Char) : Prop where
  split : cs = before ++ block ++ after
  joints : ∀ c ∈ block, isJoint c = true
  left : ∀ c ∈ before.getLast?, isJoint c = false
  right : ∀ c ∈ after.head?, isJoint c = false

/-- A block that is safe in front of `after`. Right before a quote its backslashes are odd in number
if the last of them stands next to the quote and even otherwise; at the end of the text they are
even in number. -/
structure SafeBefore (block after : List Char) : Prop where
  quote_odd : after.head? = some '"' → block.getLast? = some '\\' → Odd (block.count '\\')
  quote_even : after.head? = some '"' → block.getLast? ≠ some '\\' → Even (block.count '\\')
  stop_even : after = [] → Even (block.count '\\')

/-- Joints that do not end with a joint are none. -/
theorem eq_nil_of_joints {block : List Char} (hjoints : ∀ c ∈ block, isJoint c = true)
    (hlast : ∀ c ∈ block.getLast?, isJoint c = false) : block = [] := by
  cases h : block.getLast? with
  | none => exact List.getLast?_eq_none_iff.mp h
  | some c =>
    have hjoint := hjoints c (List.mem_of_getLast? h)
    rw [hlast c h] at hjoint
    cases hjoint

/-- A block that starts a text is as long as the joints in front of it. -/
theorem maximalBlock_front {block : List Char} {c : Char} (hblock : ∀ d ∈ block, isJoint d = true)
    (hc : isJoint c = false) {cs found after : List Char}
    (h : MaximalBlock (block ++ c :: cs) [] found after) : found = block ∧ after = c :: cs := by
  have hsplit : block ++ c :: cs = found ++ after := h.split
  rcases List.append_eq_append_iff.mp hsplit with ⟨more, rfl, hrest⟩ | ⟨more, rfl, hrest⟩
  · -- a longer block would reach over `c`, which is no joint
    cases more with
    | nil => exact ⟨List.append_nil block, hrest.symm⟩
    | cons d more =>
      obtain ⟨rfl, -⟩ := List.cons.inj hrest
      have hjoint := h.joints c (List.mem_append_right _ (List.mem_cons_self ..))
      rw [hc] at hjoint
      cases hjoint
  · -- behind a shorter one there would be another joint
    cases more with
    | nil => exact ⟨(List.append_nil found).symm, hrest⟩
    | cons d more =>
      have hjoint := hblock d (List.mem_append_right _ (List.mem_cons_self ..))
      rw [h.right d (by rw [hrest]; rfl)] at hjoint
      cases hjoint

/-- **The maximal blocks of a text** are the one in front, up to the first character that is no
joint, and those behind that character. -/
theorem maximalBlock_append_cons {block : List Char} {c : Char}
    (hblock : ∀ d ∈ block, isJoint d = true) (hc : isJoint c = false)
    {cs before found after : List Char} :
    MaximalBlock (block ++ c :: cs) before found after ↔
      (before = [] ∧ found = block ∧ after = c :: cs) ∨
        ∃ rest, before = block ++ c :: rest ∧ MaximalBlock cs rest found after := by
  constructor
  · intro h
    have hsplit := h.split
    rw [List.append_assoc] at hsplit
    have hfront : before = [] → before = [] ∧ found = block ∧ after = c :: cs := by
      rintro rfl
      exact ⟨rfl, maximalBlock_front hblock hc h⟩
    rcases List.append_eq_append_iff.mp hsplit with ⟨more, rfl, hrest⟩ | ⟨more, rfl, hrest⟩
    · cases more with
      | nil =>
        have hleft := h.left
        rw [List.append_nil] at hleft hfront ⊢
        exact .inl (hfront (eq_nil_of_joints hblock hleft))
      | cons d rest =>
        obtain ⟨rfl, hcs⟩ := List.cons.inj hrest
        refine .inr ⟨rest, rfl, by rw [List.append_assoc]; exact hcs, h.joints,
          fun e he => ?_, h.right⟩
        refine h.left e ?_
        rw [List.getLast?_append, List.getLast?_cons, Option.mem_def.mp he]
        rfl
    · have hjoints : ∀ d ∈ before, isJoint d = true :=
        fun d hd => hblock d (List.mem_append_left _ hd)
      exact .inl (hfront (eq_nil_of_joints hjoints h.left))
  · rintro (⟨rfl, rfl, rfl⟩ | ⟨rest, rfl, h⟩)
    · exact ⟨rfl, hblock, by simp, by simpa using hc⟩
    · refine ⟨by rw [h.split]; simp, h.joints, fun e he => ?_, h.right⟩
      rw [List.getLast?_append, List.getLast?_cons] at he
      cases hlast : rest.getLast? with
      | none =>
        obtain rfl : c = e := by simpa [hlast] using he
        exact hc
      | some d =>
        obtain rfl : d = e := by simpa [hlast] using he
        exact h.left d hlast

/-- The blocks that a pass collects, `block` being what it has passed of the first one. -/
theorem mem_blocksFrom_iff {block : List Char} (hblock : ∀ d ∈ block, isJoint d = true)
    (cs found : List Char) (next : Option Char) :
    (found, next) ∈ blocksFrom block cs ↔
      ∃ before after, MaximalBlock (block ++ cs) before found after ∧ after.head? = next := by
  induction cs generalizing block with
  | nil =>
    rw [blocksFrom, List.mem_singleton, Prod.mk.injEq, List.append_nil]
    constructor
    · rintro ⟨rfl, rfl⟩
      exact ⟨[], [], ⟨by simp, hblock, by simp, by simp⟩, rfl⟩
    · rintro ⟨before, after, h, rfl⟩
      obtain rfl : before = [] :=
        eq_nil_of_joints (fun d hd => hblock d (by rw [h.split]; simp [hd])) h.left
      cases after with
      | nil => exact ⟨by rw [h.split]; simp, rfl⟩
      | cons d after =>
        have hjoint := hblock d (by rw [h.split]; simp)
        rw [h.right d rfl] at hjoint
        cases hjoint
  | cons c cs ih =>
    rw [blocksFrom]
    by_cases hc : isJoint c
    · have hmore : ∀ d ∈ block ++ [c], isJoint d = true := by
        intro d hd
        rcases List.mem_append.mp hd with hd | hd
        · exact hblock d hd
        · rwa [List.mem_singleton.mp hd]
      rw [if_pos hc, ih hmore, List.append_assoc, List.singleton_append]
    · rw [if_neg hc, List.mem_cons, ih (by simp)]
      simp only [maximalBlock_append_cons hblock (Bool.eq_false_iff.mpr hc)]
      constructor
      · rintro (heq | ⟨before, after, h, rfl⟩)
        · obtain ⟨rfl, rfl⟩ := Prod.mk.inj heq
          exact ⟨[], c :: cs, .inl ⟨rfl, rfl, rfl⟩, rfl⟩
        · exact ⟨block ++ c :: before, after, .inr ⟨before, rfl, h⟩, rfl⟩
      · rintro ⟨before, after, ⟨rfl, rfl, rfl⟩ | ⟨rest, rfl, h⟩, rfl⟩
        · exact .inl rfl
        · exact .inr ⟨rest, after, h, rfl⟩

theorem mem_blocks_iff (cs found : List Char) (next : Option Char) :
    (found, next) ∈ blocks cs ↔
      ∃ before after, MaximalBlock cs before found after ∧ after.head? = next :=
  mem_blocksFrom_iff (by simp) cs found next

/-! ## Safe blocks -/

theorem isOdd_iff (block : List Char) : isOdd block = true ↔ Odd (block.count '\\') := by
  rw [isOdd, beq_iff_eq, Nat.odd_iff]

theorem isOdd_eq_false_iff (block : List Char) : isOdd block = false ↔ Even (block.count '\\') := by
  rw [← Nat.not_odd_iff_even, ← isOdd_iff, Bool.not_eq_true]

/-- The safe blocks are those that are harmless to the scan. -/
theorem harmless_iff (block after : List Char) :
    Harmless block after.head? ↔ SafeBefore block after := by
  cases after with
  | nil =>
    rw [List.head?_nil, Harmless, isOdd_eq_false_iff]
    exact ⟨fun h => ⟨by simp, by simp, fun _ => h⟩, fun h => h.stop_even rfl⟩
  | cons c after =>
    rw [List.head?_cons, Harmless]
    constructor
    · intro h
      refine ⟨fun hc hlast => ?_, fun hc hlast => ?_, by simp⟩
      · rw [← isOdd_iff, h (Option.some.inj hc)]
        exact beq_iff_eq.mpr hlast
      · rw [← isOdd_eq_false_iff, h (Option.some.inj hc)]
        exact beq_eq_false_iff_ne.mpr hlast
    · rintro h rfl
      by_cases hlast : block.getLast? = some '\\'
      · rw [(isOdd_iff block).mpr (h.quote_odd rfl hlast)]
        exact (beq_iff_eq.mpr hlast).symm
      · rw [(isOdd_eq_false_iff block).mpr (h.quote_even rfl hlast)]
        exact (beq_eq_false_iff_ne.mpr hlast).symm

theorem safeBefore_nil (after : List Char) : SafeBefore [] after where
  quote_odd _ hlast := by cases hlast
  quote_even _ _ := ⟨0, rfl⟩
  stop_even _ := ⟨0, rfl⟩

/-- **A text is closable** iff every maximal block of it is safe. -/
theorem closable_iff (cs : List Char) :
    Closable cs ↔
      ∀ before block after, block ≠ [] → MaximalBlock cs before block after →
        SafeBefore block after := by
  constructor
  · intro h before block after _ hmax
    rw [← harmless_iff]
    exact h (block, after.head?) ((mem_blocks_iff ..).mpr ⟨before, after, hmax, rfl⟩)
  · rintro h ⟨block, next⟩ hmem
    obtain ⟨before, after, hmax, rfl⟩ := (mem_blocks_iff ..).mp hmem
    refine (harmless_iff block after).mpr ?_
    by_cases hne : block = []
    · rw [hne]
      exact safeBefore_nil after
    · exact h before block after hne hmax

/-! ## The place of the closing quote -/

/-- How many characters a scan passes before the quote that closes the literal: a backslash takes
the next character with it, `taken` saying whether it has, and any other quote closes. -/
def closeAt (taken : Bool) : List Char → Option Nat
  | [] => none
  | c :: cs =>
    if taken then (closeAt false cs).map (· + 1)
    else if c = '"' then some 0
    else (closeAt (c == '\\') cs).map (· + 1)

/-- Where the literal ends that a text begins with: the place of its closing quote. -/
def literalEnd? : List Char → Option Nat
  | '"' :: cs => (closeAt false cs).map (· + 1)
  | _ => none

/-- **The scan closes at the quote behind a body** without line breaks iff what follows that quote
is what it leaves. -/
theorem closeAt_eq_length_iff {body : List Char} (hbody : ∀ c ∈ body, isLineBreak c = false)
    (taken : Bool) (rest : List Char) :
    closeAt taken (body ++ '"' :: rest) = some body.length ↔
      closingFrom taken (body ++ '"' :: rest) = some rest := by
  have hshorter : ∀ {taken : Bool} {cs : List Char}, cs.length ≤ rest.length →
      closingFrom taken cs ≠ some rest := by
    intro taken cs hle h
    have hlt := closingFrom_length h
    omega
  induction body generalizing taken with
  | nil =>
    cases taken with
    | true => simpa [closeAt] using hshorter (Nat.le_refl _)
    | false => simp [closeAt]
  | cons c body ih =>
    obtain ⟨hc, hbody⟩ := List.forall_mem_cons.mp hbody
    rw [List.cons_append, List.length_cons, closeAt, closingFrom, hc]
    cases taken with
    | true => simpa using ih hbody false
    | false =>
      by_cases hq : c = '"'
      · have hlonger : body ++ '"' :: rest ≠ rest := by
          intro h
          have hlength := congrArg List.length h
          rw [List.length_append, List.length_cons] at hlength
          omega
        simpa [hq] using hlonger
      · simpa [hq] using ih hbody (c == '\\')

theorem quoted_append (s r : String) :
    (quoted s ++ r).toList = '"' :: (literalBody s.toList ++ '"' :: r.toList) := by
  have hquote : "\"".toList = ['"'] := rfl
  simp [quoted, escape, hquote]

/-- **Where the literal of a text ends**: whatever follows it, at the quote written behind the text
iff every maximal block of backslashes and line breaks is safe. Without backslashes it always
does. -/
theorem literal_ends_iff (s r : String) :
    (literalEnd? (quoted s ++ r).toList = some ((escape s).length + 1) ↔
      ∀ before block after, block ≠ [] → MaximalBlock s.toList before block after →
        SafeBefore block after) ∧
    ('\\' ∉ s.toList → literalEnd? (quoted s ++ r).toList = some ((escape s).length + 1)) := by
  have hbody : ∀ c ∈ literalBody s.toList, isLineBreak c = false := by
    rw [literalBody_eq_escapeFrom]
    exact fun c hc => not_isLineBreak_of_mem_escapeFrom hc
  have hend : literalEnd? (quoted s ++ r).toList = some ((escape s).length + 1) ↔
      Closable s.toList := by
    have hlength : (escape s).length = (literalBody s.toList).length := by
      rw [escape, String.length_ofList]
    rw [quoted_append, literalEnd?, hlength, ← closing_literalBody s.toList r.toList, closing,
      ← closeAt_eq_length_iff hbody]
    simp
  exact ⟨hend.trans (closable_iff s.toList), fun h => hend.mpr (closable_of_notMem h)⟩

/-- Two backslashes with a line break behind each, in front of a quote, and two at the end: all
blocks are safe. A text without backslashes has none. -/
theorem literal_ends_iff_specimen :
    let s := "\\\n\\\rx\\\n\\\r\"y\\\"z\\\n\\"
    let plain := "say \"so\"\n"
    literalEnd? (quoted s ++ ");").toList = some ((escape s).length + 1) ∧
    MaximalBlock s.toList "\\\n\\\rx".toList "\\\n\\\r".toList "\"y\\\"z\\\n\\".toList ∧
    SafeBefore "\\\n\\\r".toList "\"y\\\"z\\\n\\".toList ∧
    '\\' ∉ plain.toList ∧
      literalEnd? (quoted plain ++ "\"").toList = some ((escape plain).length + 1) := by
  intro s plain
  have hend : literalEnd? (quoted s ++ ");").toList = some ((escape s).length + 1) := by decide
  have hmax : MaximalBlock s.toList "\\\n\\\rx".toList "\\\n\\\r".toList "\"y\\\"z\\\n\\".toList :=
    ⟨by decide, by simp [isJoint, isLineBreak], by simp [isJoint, isLineBreak],
      by simp [isJoint, isLineBreak]⟩
  have hplain : '\\' ∉ plain.toList := by decide
  exact ⟨hend, hmax, (literal_ends_iff s ");").1.mp hend _ _ _ (by simp) hmax, hplain,
    (literal_ends_iff plain "\"").2 hplain⟩

end DomScript.Text
