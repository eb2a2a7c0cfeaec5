/-
DomScript.Proofs.Text.NormalForm — the texts that a literal holds as they are.

Writing a text as a literal brings it into a normal form: of the blanks of ASCII only single spaces
are left, and every quote has its backslash. A text in this form is written as it is, so that
writing twice is writing once. Trimming may come first or last: what it takes leaves blanks only,
and what it leaves is written without a blank at its ends.

* `normalFrom_escapeFrom` — what is written is in normal form;
* `escapeFrom_of_normalFrom` — what is in normal form is written as it is;
* `literalBody_eq_self_iff` — so that the normal forms are the fixed points;
* `literalBody_trim` — writing a text commutes with trimming it.
-/
import DomScript.Proofs.Text.Runs
import DomScript.Proofs.Text.Split

namespace DomScript.Text

/-! ## Normal forms -/

/-- A text with nothing left to be done: of the blanks of ASCII there are spaces only, no two of
them next to each other, and right before every quote there is a backslash. -/
structure Normal (t : List Char) : Prop where
  blanks : '\t' ∉ t ∧ '\n' ∉ t ∧ '\x0c' ∉ t ∧ '\r' ∉ t
  spaces : ¬ [' ', ' '] <:+: t
  quotes : ∀ before after, t = before ++ '"' :: after → before.getLast? = some '\\'

/-- The same behind the character `prev`, one character after the other. -/
def NormalFrom : Option Char → List Char → Prop
  | _, [] => True
  | prev, c :: cs =>
    (isAsciiBlank c = true → c = ' ' ∧ prev ≠ some ' ') ∧ (c = '"' → prev = some '\\') ∧
      NormalFrom (some c) cs

theorem normalFrom_space {prev : Option Char} {cs : List Char} :
    NormalFrom prev (' ' :: cs) ↔ prev ≠ some ' ' ∧ NormalFrom (some ' ') cs := by
  have hb : isAsciiBlank ' ' = true := rfl
  simp [NormalFrom, hb]

theorem normalFrom_quote {prev : Option Char} {cs : List Char} :
    NormalFrom prev ('"' :: cs) ↔ prev = some '\\' ∧ NormalFrom (some '"') cs := by
  have hb : isAsciiBlank '"' = false := rfl
  simp [NormalFrom, hb]

theorem normalFrom_other {c : Char} (hb : isAsciiBlank c = false) (hq : c ≠ '"') {prev : Option Char}
    {cs : List Char} : NormalFrom prev (c :: cs) ↔ NormalFrom (some c) cs := by
  simp [NormalFrom, hb, hq]

/-! ### The conditions, one character after the other -/

theorem blanks_cons (c : Char) (cs : List Char) :
    ('\t' ∉ c :: cs ∧ '\n' ∉ c :: cs ∧ '\x0c' ∉ c :: cs ∧ '\r' ∉ c :: cs) ↔
      (isAsciiBlank c = true → c = ' ') ∧ '\t' ∉ cs ∧ '\n' ∉ cs ∧ '\x0c' ∉ cs ∧ '\r' ∉ cs := by
  have hc : (isAsciiBlank c = true → c = ' ') ↔
      '\t' ≠ c ∧ '\n' ≠ c ∧ '\x0c' ≠ c ∧ '\r' ≠ c := by
    constructor
    · intro h
      refine ⟨?_, ?_, ?_, ?_⟩ <;> rintro rfl <;> exact absurd (h rfl) (by decide)
    · rintro ⟨ht, hn, hf, hr⟩ hb
      simpa [isAsciiBlank, Ne.symm ht, Ne.symm hn, Ne.symm hf, Ne.symm hr] using hb
  rw [hc]
  simp only [List.mem_cons, not_or]
  tauto

theorem spaces_cons (c : Char) (cs : List Char) :
    ¬ [' ', ' '] <:+: c :: cs ↔ (c = ' ' → cs.head? ≠ some ' ') ∧ ¬ [' ', ' '] <:+: cs := by
  have hfront : [' ', ' '] <+: c :: cs ↔ c = ' ' ∧ cs.head? = some ' ' := by
    cases cs with
    | nil => simp
    | cons d cs => simp [List.cons_prefix_cons, eq_comm]
  rw [List.infix_cons_iff, hfront]
  tauto

theorem quotes_cons (prev : Option Char) (c : Char) (cs : List Char) :
    (∀ before after, c :: cs = before ++ '"' :: after → before.getLast?.or prev = some '\\') ↔
      (c = '"' → prev = some '\\') ∧
        ∀ before after, cs = before ++ '"' :: after → before.getLast?.or (some c) = some '\\' := by
  constructor
  · intro h
    refine ⟨fun hc => h [] cs (by rw [hc]; rfl), fun before after hcs => ?_⟩
    rw [← getLast?_or prev]
    exact h (c :: before) after (by rw [hcs]; rfl)
  · rintro ⟨hfirst, hrest⟩ before after heq
    cases before with
    | nil => exact hfirst (List.cons.inj heq).1
    | cons d before =>
      obtain ⟨rfl, hcs⟩ := List.cons.inj heq
      rw [getLast?_or]
      exact hrest before after hcs

theorem normalFrom_iff (prev : Option Char) (t : List Char) :
    NormalFrom prev t ↔
      ('\t' ∉ t ∧ '\n' ∉ t ∧ '\x0c' ∉ t ∧ '\r' ∉ t) ∧
      (¬ [' ', ' '] <:+: t ∧ (prev = some ' ' → t.head? ≠ some ' ')) ∧
      ∀ before after, t = before ++ '"' :: after → before.getLast?.or prev = some '\\' := by
  induction t generalizing prev with
  | nil => simp [NormalFrom]
  | cons c cs ih =>
    have hspace : isAsciiBlank ' ' = true := rfl
    rw [NormalFrom, ih, blanks_cons, spaces_cons, quotes_cons, List.head?_cons, Option.some.injEq]
    constructor
    · rintro ⟨hblank, hquote, hblanks, ⟨hspaces, hnext⟩, hquotes⟩
      refine ⟨⟨fun h => (hblank h).1, hblanks⟩, ⟨⟨hnext, hspaces⟩, ?_⟩, hquote, hquotes⟩
      rintro hprev ⟨⟩
      exact (hblank hspace).2 hprev
    · rintro ⟨⟨hblank, hblanks⟩, ⟨⟨hnext, hspaces⟩, hprev⟩, hquote, hquotes⟩
      refine ⟨fun h => ⟨hblank h, fun hp => ?_⟩, hquote, hblanks, ⟨hspaces, hnext⟩, hquotes⟩
      exact hprev hp (congrArg some (hblank h))

theorem normal_iff (t : List Char) : Normal t ↔ NormalFrom none t := by
  rw [normalFrom_iff]
  constructor
  · rintro ⟨hblanks, hspaces, hquotes⟩
    refine ⟨hblanks, ⟨hspaces, by simp⟩, fun before after h => ?_⟩
    rw [Option.or_none, hquotes before after h]
  · rintro ⟨hblanks, ⟨hspaces, -⟩, hquotes⟩
    refine ⟨hblanks, hspaces, fun before after h => ?_⟩
    rw [← hquotes before after h, Option.or_none]

/-! ## What is written is normal, and what is normal is written as it is -/

/-- **What is written is in normal form**, behind any character that the state of the scan
allows. -/
theorem normalFrom_escapeFrom {spaced slashed : Bool} {prev : Option Char} (cs : List Char)
    (hspaced : spaced = false → prev ≠ some ' ') (hslashed : slashed = true → prev = some '\\') :
    NormalFrom prev (escapeFrom spaced slashed cs) := by
  induction cs generalizing spaced slashed prev with
  | nil => trivial
  | cons c cs ih =>
    have hnext : NormalFrom (some '"') (escapeFrom false false cs) := ih (by simp) (by simp)
    rcases escapeFrom_cons spaced slashed c cs with
      ⟨-, hw⟩ | ⟨-, hs, hw⟩ | ⟨-, hs, hw⟩ | ⟨-, -, hw⟩ | ⟨hb, hq, hw⟩
    · rw [hw]
      exact ih hspaced (by simp)
    · rw [hw]
      exact normalFrom_space.mpr ⟨hspaced hs, ih (by simp) (by simp)⟩
    · rw [hw]
      exact normalFrom_quote.mpr ⟨hslashed hs, hnext⟩
    · rw [hw]
      exact (normalFrom_other rfl (by decide)).mpr (normalFrom_quote.mpr ⟨rfl, hnext⟩)
    · rw [hw]
      refine (normalFrom_other hb hq).mpr (ih (fun _ hc => ?_) fun hs => ?_)
      · rw [Option.some.inj hc] at hb
        cases hb
      · rw [beq_iff_eq.mp hs]

/-- **What is in normal form is written as it is.** -/
theorem escapeFrom_of_normalFrom {prev : Option Char} {t : List Char} (h : NormalFrom prev t) :
    escapeFrom (prev == some ' ') (prev == some '\\') t = t := by
  induction t generalizing prev with
  | nil => rfl
  | cons c t ih =>
    obtain ⟨hblank, hquote, hrest⟩ := h
    have hrest := ih hrest
    by_cases hb : isAsciiBlank c
    · obtain ⟨rfl, hprev⟩ := hblank hb
      have hs : (prev == some ' ') = false := beq_eq_false_iff_ne.mpr hprev
      have hl : isLineBreak ' ' = false := rfl
      simpa [escapeFrom, hb, hs, hl] using hrest
    · have hc : c ≠ ' ' := by
        rintro rfl
        exact hb rfl
      by_cases hq : c = '"'
      · subst hq
        have hs : (prev == some '\\') = true := beq_iff_eq.mpr (hquote rfl)
        simpa [escapeFrom, hb, hs] using hrest
      · have hc : (c == ' ') = false := beq_eq_false_iff_ne.mpr hc
        simpa [escapeFrom, hb, hq, hc] using hrest

theorem normal_literalBody (cs : List Char) : Normal (literalBody cs) := by
  rw [normal_iff, literalBody_eq_escapeFrom]
  exact normalFrom_escapeFrom cs (by simp) (by simp)

/-- **The normal forms are the fixed points.** -/
theorem literalBody_eq_self_iff (t : List Char) : literalBody t = t ↔ Normal t := by
  constructor
  · intro h
    rw [← h]
    exact normal_literalBody t
  · intro h
    rw [literalBody_eq_escapeFrom]
    exact escapeFrom_of_normalFrom ((normal_iff t).mp h)

/-- No quote is lost and none is added. -/
theorem count_quote_escapeFrom (spaced slashed : Bool) (cs : List Char) :
    (escapeFrom spaced slashed cs).count '"' = cs.count '"' := by
  induction cs generalizing spaced slashed with
  | nil => rfl
  | cons c cs ih =>
    have hblank : isAsciiBlank c = true → c ≠ '"' := by
      rintro hb rfl
      cases hb
    rcases escapeFrom_cons spaced slashed c cs with
      ⟨hb, hw⟩ | ⟨hb, -, hw⟩ | ⟨rfl, -, hw⟩ | ⟨rfl, -, hw⟩ | ⟨-, hq, hw⟩
    · rw [hw, ih, List.count_cons_of_ne (hblank hb)]
    · rw [hw, List.count_cons_of_ne (by decide), ih, List.count_cons_of_ne (hblank hb)]
    · rw [hw, List.count_cons_self, ih, List.count_cons_self]
    · rw [hw, List.count_cons_of_ne (by decide), List.count_cons_self, ih, List.count_cons_self]
    · rw [hw, List.count_cons_of_ne hq, ih, List.count_cons_of_ne hq]

/-! ## Writing and trimming -/

/-- The scan goes on behind a part of a text with what stands before the rest. -/
theorem escapeFrom_append (spaced : Bool) (prev : Option Char) (cs : List Char) :
    ∃ s, ∀ ds, escapeFrom spaced (prev == some '\\') (cs ++ ds) =
      escapeFrom spaced (prev == some '\\') cs ++
        escapeFrom s (cs.getLast?.or prev == some '\\') ds := by
  induction cs generalizing spaced prev with
  | nil => exact ⟨spaced, fun ds => rfl⟩
  | cons c cs ih =>
    by_cases hb : isAsciiBlank c
    · have hc : (some c == some '\\') = false := by
        refine beq_eq_false_iff_ne.mpr ?_
        rintro ⟨⟩
        cases hb
      obtain ⟨s, hs⟩ := ih (spaced || !isLineBreak c) (some c)
      refine ⟨s, fun ds => ?_⟩
      rw [hc] at hs
      rw [getLast?_or, List.cons_append]
      cases spaced with
      | true => simpa [escapeFrom, hb] using hs ds
      | false =>
        by_cases hl : isLineBreak c
        · simpa [escapeFrom, hb, hl] using hs ds
        · simpa [escapeFrom, hb, hl] using hs ds
    · obtain ⟨s, hs⟩ := ih false (some c)
      refine ⟨s, fun ds => ?_⟩
      rw [getLast?_or, List.cons_append]
      by_cases hq : c = '"'
      · subst hq
        by_cases hp : prev = some '\\'
        · simpa [escapeFrom, hb, hp] using hs ds
        · simpa [escapeFrom, hb, hp] using hs ds
      · simpa [escapeFrom, hb, hq] using hs ds

theorem literalBody_append (cs : List Char) :
    ∃ s, ∀ ds, literalBody (cs ++ ds) =
      literalBody cs ++ escapeFrom s (cs.getLast? == some '\\') ds := by
  obtain ⟨s, hs⟩ := escapeFrom_append false none cs
  refine ⟨s, fun ds => ?_⟩
  rw [literalBody_eq_escapeFrom, literalBody_eq_escapeFrom]
  rw [Option.or_none] at hs
  exact hs ds

theorem isWhiteSpace_of_isAsciiBlank {c : Char} (h : isAsciiBlank c = true) :
    isWhiteSpace c = true := by
  simp only [isAsciiBlank, Bool.or_eq_true, beq_iff_eq] at h
  rcases h with (((rfl | rfl) | rfl) | rfl) | rfl <;> rfl

/-- Blanks are written as blanks. -/
theorem isWhiteSpace_escapeFrom {cs : List Char} (h : ∀ c ∈ cs, isWhiteSpace c = true)
    (spaced slashed : Bool) : ∀ c ∈ escapeFrom spaced slashed cs, isWhiteSpace c = true := by
  induction cs generalizing spaced slashed with
  | nil => simp [escapeFrom]
  | cons c cs ih =>
    obtain ⟨hc, hcs⟩ := List.forall_mem_cons.mp h
    have hquote : c ≠ '"' := by
      rintro rfl
      cases hc
    rcases escapeFrom_cons spaced slashed c cs with
      ⟨-, hw⟩ | ⟨-, -, hw⟩ | ⟨hq, -⟩ | ⟨hq, -⟩ | ⟨-, -, hw⟩
    · rw [hw]
      exact ih hcs _ _
    · rw [hw]
      exact List.forall_mem_cons.mpr ⟨rfl, ih hcs _ _⟩
    · exact absurd hq hquote
    · exact absurd hq hquote
    · rw [hw]
      exact List.forall_mem_cons.mpr ⟨hc, ih hcs _ _⟩

theorem isWhiteSpace_literalBody {cs : List Char} (h : ∀ c ∈ cs, isWhiteSpace c = true) :
    ∀ c ∈ literalBody cs, isWhiteSpace c = true := by
  rw [literalBody_eq_escapeFrom]
  exact isWhiteSpace_escapeFrom h _ _

/-- Behind blanks the scan starts afresh with a character that is none. -/
theorem escapeFrom_spaced {c : Char} (hc : isAsciiBlank c = false) (spaced slashed : Bool)
    (cs : List Char) : escapeFrom spaced slashed (c :: cs) = escapeFrom false slashed (c :: cs) := by
  simp [escapeFrom, hc]

theorem isAsciiBlank_of_not_isWhiteSpace {c : Char} (h : isWhiteSpace c = false) :
    isAsciiBlank c = false :=
  Bool.eq_false_iff.mpr fun hb => Bool.eq_false_iff.mp h (isWhiteSpace_of_isAsciiBlank hb)

/-- A text that neither begins nor ends with a blank is written without a blank at its ends. -/
theorem trimmed_literalBody {word : List Char} (h : Trimmed word) : Trimmed (literalBody word) := by
  have hhead : ∃ c, (literalBody word).head? = some c ∧ isWhiteSpace c = false := by
    obtain ⟨c, cs, rfl⟩ := List.exists_cons_of_ne_nil h.ne_nil
    have hc : isWhiteSpace c = false := h.first c rfl
    rw [literalBody_eq_escapeFrom, escapeFrom, isAsciiBlank_of_not_isWhiteSpace hc]
    by_cases hq : c = '"'
    · exact ⟨'\\', by simp [hq], rfl⟩
    · exact ⟨c, by simp [hq], hc⟩
  have hend : ∃ c, (literalBody word).getLast? = some c ∧ isWhiteSpace c = false := by
    obtain ⟨cs, c, rfl⟩ := List.eq_nil_or_concat word |>.resolve_left h.ne_nil
    have hc : isWhiteSpace c = false := h.last c (by simp)
    obtain ⟨s, hs⟩ := literalBody_append cs
    refine ⟨c, ?_, hc⟩
    rw [List.concat_eq_append, hs, escapeFrom, isAsciiBlank_of_not_isWhiteSpace hc]
    by_cases hq : c = '"'
    · by_cases hp : cs.getLast? = some '\\' <;> simp [hq, hp, escapeFrom]
    · simp [hq, escapeFrom]
  obtain ⟨c, hc, hcw⟩ := hhead
  obtain ⟨e, he, hew⟩ := hend
  refine ⟨?_, ?_, ?_⟩
  · intro hnil
    rw [hnil] at hc
    cases hc
  · rw [hc]
    rintro _ ⟨⟩
    exact hcw
  · rw [he]
    rintro _ ⟨⟩
    exact hew

/-- **Trimming before or after** is the same. -/
theorem literalBody_trim (cs : List Char) : literalBody (trim cs) = trim (literalBody cs) := by
  obtain ⟨front, back, hsplit, hfront, hback, hword⟩ := exists_trim cs
  generalize trim cs = word at hsplit hword
  subst hsplit
  cases word with
  | nil =>
    have hblank : ∀ c ∈ front ++ [] ++ back, isWhiteSpace c = true := by
      rw [List.append_nil]
      exact fun c hc => (List.mem_append.mp hc).elim (hfront c) (hback c)
    rw [trim_blank (isWhiteSpace_literalBody hblank)]
    rfl
  | cons c word =>
    have hword := hword (List.cons_ne_nil c word)
    have hc : isAsciiBlank c = false := isAsciiBlank_of_not_isWhiteSpace (hword.first c rfl)
    obtain ⟨s, hs⟩ := literalBody_append front
    obtain ⟨t, ht⟩ := literalBody_append (c :: word)
    have hslash : (front.getLast? == some '\\') = false := by
      refine beq_eq_false_iff_ne.mpr fun h => ?_
      cases hfront _ (List.mem_of_getLast? h)
    have hwritten : literalBody (front ++ (c :: word) ++ back) =
        literalBody front ++ literalBody (c :: word) ++
          escapeFrom t ((c :: word).getLast? == some '\\') back := by
      rw [List.append_assoc, hs, hslash, List.cons_append, escapeFrom_spaced hc,
        ← literalBody_eq_escapeFrom, ← List.cons_append, ht, List.append_assoc]
    rw [hwritten, trim_pad (isWhiteSpace_literalBody hfront) (isWhiteSpace_escapeFrom hback _ _)
      (trimmed_literalBody hword)]

end DomScript.Text
