/-
DomScript.Proofs.Text.Split — trimming a text and cutting it into parts.

What cutting and trimming give, and what a text that was put together from parts gives back:

* `trim_pad` — trimming takes the blanks around a word and nothing of the word;
* `exists_trim` — and so it does with every text, whatever is left of it;
* `trim_padded`, `trim_append_cons` — so that padding does not matter, and that a character which is
  no blank cuts trimming in two;
* `splitFirst?_spec`, `splitFirst?_append` — cutting at the first separator;
* `splitAll_append_cons` — a separator cuts a text into the parts before it and the parts behind it;
* `splitAll_intercalate` — parts that are joined by separators are the parts between them.

Neither gives characters that the text did not have (`mem_of_mem_trim`, `mem_of_mem_splitAll`,
`mem_of_splitFirst?`), and cutting loses none but the separators (`exists_mem_splitAll`).
-/
import DomScript.Text.Blank

namespace DomScript.Text

/-! ## Trimming -/

theorem mem_of_mem_trim {cs : List Char} {c : Char} (h : c ∈ trim cs) : c ∈ cs := by
  unfold trim trimEnd trimStart at h
  have h := List.dropWhile_subset _ (List.mem_reverse.mp h)
  exact List.dropWhile_subset _ (List.mem_reverse.mp h)

theorem dropWhile_pad {front word : List Char} (hfront : ∀ c ∈ front, isWhiteSpace c = true)
    (hword : ∀ c ∈ word.head?, isWhiteSpace c = false) :
    (front ++ word).dropWhile isWhiteSpace = word := by
  rw [List.dropWhile_append_of_pos hfront]
  cases word with
  | nil => rfl
  | cons c word => rw [List.dropWhile_cons_of_neg (by rw [hword c rfl]; exact Bool.false_ne_true)]

theorem takeWhile_pad {front rest : List Char} (hfront : ∀ c ∈ front, isWhiteSpace c = true)
    (hrest : ∀ c ∈ rest.head?, isWhiteSpace c = false) :
    (front ++ rest).takeWhile isWhiteSpace = front := by
  rw [List.takeWhile_append_of_pos hfront]
  cases rest with
  | nil => exact List.append_nil front
  | cons c rest =>
    rw [List.takeWhile_cons_of_neg (by rw [hrest c rfl]; exact Bool.false_ne_true), List.append_nil]

theorem trim_blank {cs : List Char} (h : ∀ c ∈ cs, isWhiteSpace c = true) : trim cs = [] := by
  have hstart : trimStart cs = [] := by
    rw [trimStart, ← List.append_nil cs]
    exact dropWhile_pad h (by simp)
  rw [trim, hstart]
  rfl

/-- A text that neither begins nor ends with a blank, and that is there at all. -/
structure Trimmed (word : List Char) : Prop where
  ne_nil : word ≠ []
  first : ∀ c ∈ word.head?, isWhiteSpace c = false
  last : ∀ c ∈ word.getLast?, isWhiteSpace c = false

/-- **Trimming takes the blanks around a word** that neither begins nor ends with one. -/
theorem trim_pad {front word back : List Char} (hfront : ∀ c ∈ front, isWhiteSpace c = true)
    (hback : ∀ c ∈ back, isWhiteSpace c = true) (hword : Trimmed word) :
    trim (front ++ word ++ back) = word := by
  have hstart : trimStart (front ++ word ++ back) = word ++ back := by
    rw [trimStart, List.append_assoc]
    refine dropWhile_pad hfront ?_
    obtain ⟨c, word, rfl⟩ := List.exists_cons_of_ne_nil hword.ne_nil
    exact hword.first
  have hend : ∀ c ∈ word.reverse.head?, isWhiteSpace c = false := by
    rw [List.head?_reverse]
    exact hword.last
  rw [trim, hstart, trimEnd, List.reverse_append,
    dropWhile_pad (fun c hc => hback c (List.mem_reverse.mp hc)) hend, List.reverse_reverse]

/-- **What trimming takes and leaves**: blanks on both sides, and a text that neither begins nor
ends with one, if anything is left. -/
theorem exists_trim (cs : List Char) :
    ∃ front back, cs = front ++ trim cs ++ back ∧ (∀ c ∈ front, isWhiteSpace c = true) ∧
      (∀ c ∈ back, isWhiteSpace c = true) ∧ (trim cs ≠ [] → Trimmed (trim cs)) := by
  have hfront : cs = cs.takeWhile isWhiteSpace ++ trimStart cs :=
    List.takeWhile_append_dropWhile.symm
  have hback :
      trimStart cs = trim cs ++ ((trimStart cs).reverse.takeWhile isWhiteSpace).reverse := by
    rw [trim, trimEnd, ← List.reverse_append, List.takeWhile_append_dropWhile, List.reverse_reverse]
  refine ⟨cs.takeWhile isWhiteSpace, ((trimStart cs).reverse.takeWhile isWhiteSpace).reverse,
    ?_, ?_, ?_, fun hne => ⟨hne, ?_, ?_⟩⟩
  · rw [List.append_assoc, ← hback]
    exact hfront
  · exact fun c hc => List.all_eq_true.mp List.all_takeWhile c hc
  · exact fun c hc => List.all_eq_true.mp List.all_takeWhile c (List.mem_reverse.mp hc)
  · -- what is left begins where the text without its front begins
    intro c hc
    have hstart : (trimStart cs).head? = some c := by
      rw [hback, List.head?_append, Option.mem_def.mp hc, Option.some_or]
    have hend := List.head?_dropWhile_not isWhiteSpace cs
    rw [trimStart] at hstart
    rwa [hstart] at hend
  · intro c hc
    rw [trim, trimEnd, List.getLast?_reverse] at hc
    have hend := List.head?_dropWhile_not isWhiteSpace (trimStart cs).reverse
    rwa [Option.mem_def.mp hc] at hend

theorem trim_eq_nil_iff {cs : List Char} : trim cs = [] ↔ ∀ c ∈ cs, isWhiteSpace c = true := by
  refine ⟨fun h => ?_, trim_blank⟩
  obtain ⟨front, back, hsplit, hfront, hback, -⟩ := exists_trim cs
  rw [h, List.append_nil] at hsplit
  rw [hsplit]
  exact fun c hc => (List.mem_append.mp hc).elim (hfront c) (hback c)

/-- Neither begins nor ends with a blank; it may be empty. -/
structure Bare (word : List Char) : Prop where
  first : ∀ c ∈ word.head?, isWhiteSpace c = false
  last : ∀ c ∈ word.getLast?, isWhiteSpace c = false

instance (word : List Char) : Decidable (Bare word) :=
  decidable_of_iff
    (word.head?.all (!isWhiteSpace ·) = true ∧ word.getLast?.all (!isWhiteSpace ·) = true) <| by
    simp only [Option.all_eq_true, Bool.not_eq_true', ← Option.mem_def]
    exact ⟨fun ⟨hfirst, hlast⟩ => ⟨hfirst, hlast⟩, fun ⟨hfirst, hlast⟩ => ⟨hfirst, hlast⟩⟩

theorem Bare.trim_eq {front word back : List Char} (hfront : ∀ c ∈ front, isWhiteSpace c = true)
    (hback : ∀ c ∈ back, isWhiteSpace c = true) (hword : Bare word) :
    trim (front ++ word ++ back) = word := by
  by_cases hne : word = []
  · subst hne
    rw [List.append_nil]
    exact trim_blank fun c hc => (List.mem_append.mp hc).elim (hfront c) (hback c)
  · exact trim_pad hfront hback ⟨hne, hword.first, hword.last⟩

/-- **Padding does not matter**, whatever text it stands around. -/
theorem trim_padded {front back : List Char} (hfront : ∀ c ∈ front, isWhiteSpace c = true)
    (hback : ∀ c ∈ back, isWhiteSpace c = true) (cs : List Char) :
    trim (front ++ cs ++ back) = trim cs := by
  obtain ⟨front', back', hsplit, hfront', hback', hword⟩ := exists_trim cs
  have hbare : Bare (trim cs) := by
    by_cases hne : trim cs = []
    · rw [hne]
      exact ⟨by simp, by simp⟩
    · exact ⟨(hword hne).first, (hword hne).last⟩
  have hall : front ++ cs ++ back = (front ++ front') ++ trim cs ++ (back' ++ back) := by
    calc front ++ cs ++ back = front ++ (front' ++ trim cs ++ back') ++ back := by rw [← hsplit]
      _ = (front ++ front') ++ trim cs ++ (back' ++ back) := by simp only [List.append_assoc]
  rw [hall]
  refine hbare.trim_eq (fun c hc => ?_) fun c hc => ?_
  · exact (List.mem_append.mp hc).elim (hfront c) (hfront' c)
  · exact (List.mem_append.mp hc).elim (hback' c) (hback c)

theorem trim_trimStart (cs : List Char) : trim (trimStart cs) = trim cs := by
  have hfront : ∀ c ∈ cs.takeWhile isWhiteSpace, isWhiteSpace c = true :=
    fun c hc => List.all_eq_true.mp List.all_takeWhile c hc
  have hpad := trim_padded hfront (List.forall_mem_nil _) (trimStart cs)
  rw [← hpad, List.append_nil, trimStart, List.takeWhile_append_dropWhile]

theorem trim_trimEnd (cs : List Char) : trim (trimEnd cs) = trim cs := by
  have hback : ∀ c ∈ (cs.reverse.takeWhile isWhiteSpace).reverse, isWhiteSpace c = true :=
    fun c hc => List.all_eq_true.mp List.all_takeWhile c (List.mem_reverse.mp hc)
  have hpad := trim_padded (List.forall_mem_nil _) hback (trimEnd cs)
  rw [← hpad, List.nil_append, trimEnd, ← List.reverse_append, List.takeWhile_append_dropWhile,
    List.reverse_reverse]

theorem trimStart_append_cons {c : Char} (hc : isWhiteSpace c = false) (cs ds : List Char) :
    trimStart (cs ++ c :: ds) = trimStart cs ++ c :: ds := by
  rw [trimStart, trimStart, List.dropWhile_append,
    List.dropWhile_cons_of_neg (by rw [hc]; exact Bool.false_ne_true)]
  split
  · rename_i hempty
    rw [List.isEmpty_iff.mp hempty, List.nil_append]
  · rfl

theorem trimEnd_append_cons {c : Char} (hc : isWhiteSpace c = false) (cs ds : List Char) :
    trimEnd (cs ++ c :: ds) = cs ++ c :: trimEnd ds := by
  have hback := trimStart_append_cons hc ds.reverse cs.reverse
  unfold trimStart at hback
  rw [trimEnd, List.reverse_append, List.reverse_cons, List.append_assoc, List.singleton_append,
    hback, trimEnd]
  simp

/-- **A character that is no blank** keeps the blanks around it; each side is trimmed on its own. -/
theorem trim_append_cons {c : Char} (hc : isWhiteSpace c = false) (cs ds : List Char) :
    trim (cs ++ c :: ds) = trimStart cs ++ c :: trimEnd ds := by
  rw [trim, trimStart_append_cons hc, trimEnd_append_cons hc]

/-! ## Cutting once -/

theorem splitFirst?_spec {sep : Char} {cs before after : List Char}
    (h : splitFirst? sep cs = some (before, after)) :
    cs = before ++ sep :: after ∧ sep ∉ before := by
  induction cs generalizing before with
  | nil => cases h
  | cons c cs ih =>
    rw [splitFirst?] at h
    split at h
    · rename_i hc
      obtain ⟨rfl, rfl⟩ := Prod.mk.inj (Option.some.inj h)
      exact ⟨by rw [hc]; rfl, by simp⟩
    · rename_i hc
      obtain ⟨⟨b, a⟩, hb, heq⟩ := Option.map_eq_some_iff.mp h
      obtain ⟨rfl, rfl⟩ := Prod.mk.inj heq
      obtain ⟨rfl, hnot⟩ := ih hb
      exact ⟨rfl, by simp [Ne.symm hc, hnot]⟩

theorem splitFirst?_append {sep : Char} {before : List Char} (h : sep ∉ before)
    (rest : List Char) : splitFirst? sep (before ++ sep :: rest) = some (before, rest) := by
  induction before with
  | nil => simp [splitFirst?]
  | cons c before ih =>
    simp only [List.mem_cons, not_or] at h
    rw [List.cons_append, splitFirst?, if_neg (Ne.symm h.1), ih h.2]
    rfl

theorem splitFirst?_of_notMem {sep : Char} {cs : List Char} (h : sep ∉ cs) :
    splitFirst? sep cs = none := by
  refine Option.eq_none_iff_forall_ne_some.mpr fun ⟨before, after⟩ hsplit => h ?_
  rw [(splitFirst?_spec hsplit).1]
  exact List.mem_append_right _ (List.mem_cons_self ..)

theorem mem_of_splitFirst? {sep c : Char} {cs before after : List Char}
    (hs : splitFirst? sep cs = some (before, after)) (h : c ∈ before ∨ c ∈ after) : c ∈ cs := by
  rw [(splitFirst?_spec hs).1, List.mem_append, List.mem_cons]
  exact h.imp_right .inr

/-! ## Cutting everywhere -/

theorem splitAll_ne_nil (sep : Char) (cs : List Char) : splitAll sep cs ≠ [] := by
  cases cs with
  | nil => exact List.cons_ne_nil _ _
  | cons c cs =>
    rw [splitAll]
    split
    · exact List.cons_ne_nil _ _
    · split <;> exact List.cons_ne_nil _ _

theorem splitAll_of_notMem {sep : Char} {part : List Char} (h : sep ∉ part) :
    splitAll sep part = [part] := by
  induction part with
  | nil => rfl
  | cons c part ih =>
    simp only [List.mem_cons, not_or] at h
    rw [splitAll, if_neg (Ne.symm h.1), ih h.2]

/-- **A separator** cuts a text into the parts before it and the parts behind it. -/
theorem splitAll_append_cons (sep : Char) (cs ds : List Char) :
    splitAll sep (cs ++ sep :: ds) = splitAll sep cs ++ splitAll sep ds := by
  induction cs with
  | nil => simp [splitAll]
  | cons c cs ih =>
    rw [List.cons_append, splitAll, splitAll, ih]
    split
    · rfl
    · obtain ⟨part, parts, hsplit⟩ := List.exists_cons_of_ne_nil (splitAll_ne_nil sep cs)
      rw [hsplit]
      rfl

theorem splitAll_append {sep : Char} {part : List Char} (h : sep ∉ part) (rest : List Char) :
    splitAll sep (part ++ sep :: rest) = part :: splitAll sep rest := by
  rw [splitAll_append_cons, splitAll_of_notMem h, List.singleton_append]

theorem splitAll_lines {lines : List (List Char)} (h : ∀ line ∈ lines, '\n' ∉ line) :
    splitAll '\n' (lines.flatMap (· ++ ['\n'])) = lines ++ [[]] := by
  induction lines with
  | nil => rfl
  | cons line lines ih =>
    rw [List.flatMap_cons, List.append_assoc, List.singleton_append,
      splitAll_append (h line (List.mem_cons_self ..)),
      ih fun l hl => h l (List.mem_cons_of_mem _ hl), List.cons_append]

/-- **Parts that are joined by separators** are the parts between them. -/
theorem splitAll_intercalate {sep : Char} {parts : List (List Char)} (hne : parts ≠ [])
    (h : ∀ part ∈ parts, sep ∉ part) : splitAll sep ([sep].intercalate parts) = parts := by
  induction parts with
  | nil => exact absurd rfl hne
  | cons part parts ih =>
    obtain ⟨hpart, hparts⟩ := List.forall_mem_cons.mp h
    cases parts with
    | nil => rw [List.intercalate_singleton, splitAll_of_notMem hpart]
    | cons next parts =>
      rw [List.intercalate_cons_cons, List.append_assoc, List.singleton_append,
        splitAll_append hpart, ih (List.cons_ne_nil _ _) hparts]

theorem mem_of_mem_splitAll {sep c : Char} {part cs : List Char} (hp : part ∈ splitAll sep cs)
    (h : c ∈ part) : c ∈ cs := by
  induction cs generalizing part with
  | nil =>
    obtain rfl : part = [] := by simpa [splitAll] using hp
    simp at h
  | cons d ds ih =>
    simp only [splitAll] at hp
    split at hp
    · rcases List.mem_cons.mp hp with rfl | hp
      · simp at h
      · exact List.mem_cons_of_mem _ (ih hp h)
    · split at hp
      · obtain rfl : part = [d] := by simpa using hp
        simp [List.mem_singleton.mp h]
      · rename_i first parts hsplit
        rcases List.mem_cons.mp hp with rfl | hp
        · rcases List.mem_cons.mp h with rfl | h
          · exact List.mem_cons_self ..
          · exact List.mem_cons_of_mem _ (ih (by rw [hsplit]; exact List.mem_cons_self ..) h)
        · exact List.mem_cons_of_mem _ (ih (by rw [hsplit]; exact List.mem_cons_of_mem _ hp) h)

/-- Nothing but the separators is lost. -/
theorem exists_mem_splitAll {sep c : Char} {cs : List Char} (hc : c ≠ sep) (h : c ∈ cs) :
    ∃ part ∈ splitAll sep cs, c ∈ part := by
  induction cs with
  | nil => simp at h
  | cons d ds ih =>
    simp only [splitAll]
    split
    · rename_i hd
      rcases List.mem_cons.mp h with rfl | h
      · exact absurd hd hc
      · obtain ⟨part, hpart, hmem⟩ := ih h
        exact ⟨part, List.mem_cons_of_mem _ hpart, hmem⟩
    · rcases List.mem_cons.mp h with rfl | h
      · split <;> exact ⟨_, List.mem_cons_self .., List.mem_cons_self ..⟩
      · obtain ⟨part, hpart, hmem⟩ := ih h
        split
        · rename_i hsplit
          rw [hsplit] at hpart
          simp at hpart
        · rename_i first parts hsplit
          rw [hsplit] at hpart
          rcases List.mem_cons.mp hpart with rfl | hpart
          · exact ⟨_, List.mem_cons_self .., List.mem_cons_of_mem _ hmem⟩
          · exact ⟨part, List.mem_cons_of_mem _ hpart, hmem⟩

end DomScript.Text
