/-
DomScript.Proofs.Text.Closing — where a written literal ends.

`closing` scans a double-quoted literal from behind its opening quote: a backslash takes the next
character with it, a quote that is not taken closes, and a raw line break is an error. Whether the
literal of a text closes at the quote written behind it depends on the backslashes of the text
alone, block by block: line breaks vanish, so a block is what backslashes and line breaks stand
together.

* `literalBody_eq_escapeFrom` — the written form in one pass, deciding each character by what
  stands before it;
* `closable_of_notMem` — without backslashes every block is harmless;
* `closing_literalBody` — the literal closes where it should exactly if every block is harmless.
-/
import DomScript.Proofs.Text.Literal

namespace DomScript.Text

/-! ## Scanning -/

/-- Scan on, `taken` saying whether a backslash has taken the next character: what follows the
quote that closes the literal. -/
def closingFrom (taken : Bool) : List Char → Option (List Char)
  | [] => none
  | c :: cs =>
    if taken then closingFrom false cs
    else if c = '"' then some cs
    else if isLineBreak c then none
    else closingFrom (c == '\\') cs

/-- What follows the quote that closes a literal, from behind its opening quote. -/
def closing (cs : List Char) : Option (List Char) :=
  closingFrom false cs

@[simp] theorem closingFrom_nil (taken : Bool) : closingFrom taken [] = none := rfl

@[simp] theorem closingFrom_taken (c : Char) (cs : List Char) :
    closingFrom true (c :: cs) = closingFrom false cs := rfl

@[simp] theorem closingFrom_quote (cs : List Char) : closingFrom false ('"' :: cs) = some cs := rfl

theorem closingFrom_backslash (taken : Bool) (cs : List Char) :
    closingFrom taken ('\\' :: cs) = closingFrom (!taken) cs := by
  cases taken <;> rfl

/-- Behind a character that is not special nothing is taken. -/
theorem closingFrom_other {c : Char} (hq : c ≠ '"') (hb : c ≠ '\\') (hl : isLineBreak c = false)
    (taken : Bool) (cs : List Char) : closingFrom taken (c :: cs) = closingFrom false cs := by
  have hb : (c == '\\') = false := beq_eq_false_iff_ne.mpr hb
  cases taken with
  | true => rfl
  | false => simp only [closingFrom, hq, hb, hl, Bool.false_eq_true, if_false]

/-- What a scan leaves stands behind a quote. -/
theorem closingFrom_suffix {taken : Bool} {cs tail : List Char}
    (h : closingFrom taken cs = some tail) : ∃ body, cs = body ++ '"' :: tail := by
  induction cs generalizing taken with
  | nil => cases h
  | cons c cs ih =>
    have hnext : ∀ {taken}, closingFrom taken cs = some tail →
        ∃ body, c :: cs = body ++ '"' :: tail := by
      intro taken h
      obtain ⟨body, rfl⟩ := ih h
      exact ⟨c :: body, rfl⟩
    rw [closingFrom] at h
    split at h
    · exact hnext h
    · split at h
      · rename_i hc
        obtain rfl := Option.some.inj h
        exact ⟨[], by rw [hc]; rfl⟩
      · split at h
        · cases h
        · exact hnext h

theorem closingFrom_length {taken : Bool} {cs tail : List Char}
    (h : closingFrom taken cs = some tail) : tail.length < cs.length := by
  obtain ⟨body, rfl⟩ := closingFrom_suffix h
  rw [List.length_append, List.length_cons]
  omega

/-! ## The written form in one pass -/

/-- The written form of what follows: `spaced` says whether the blanks right before have left
their space, and `slashed` whether the character right before is a backslash. -/
def escapeFrom (spaced slashed : Bool) : List Char → List Char
  | [] => []
  | c :: cs =>
    if isAsciiBlank c then
      if spaced then escapeFrom true false cs
      else if isLineBreak c then escapeFrom false false cs
      else ' ' :: escapeFrom true false cs
    else if c = '"' then
      if slashed then '"' :: escapeFrom false false cs else '\\' :: '"' :: escapeFrom false false cs
    else c :: escapeFrom false (c == '\\') cs

/-- **What one character leaves**: a blank nothing or a space, a quote itself behind a backslash and
with a backslash elsewhere, any other character itself. -/
theorem escapeFrom_cons (spaced slashed : Bool) (c : Char) (cs : List Char) :
    let written := escapeFrom spaced slashed (c :: cs)
    (isAsciiBlank c = true ∧ written = escapeFrom spaced false cs) ∨
    (isAsciiBlank c = true ∧ spaced = false ∧ written = ' ' :: escapeFrom true false cs) ∨
    (c = '"' ∧ slashed = true ∧ written = '"' :: escapeFrom false false cs) ∨
    (c = '"' ∧ slashed = false ∧ written = '\\' :: '"' :: escapeFrom false false cs) ∨
    (isAsciiBlank c = false ∧ c ≠ '"' ∧ written = c :: escapeFrom false (c == '\\') cs) := by
  by_cases hb : isAsciiBlank c
  · by_cases hl : isLineBreak c
    · left
      cases spaced <;> simp [escapeFrom, hb, hl]
    · cases spaced with
      | true => exact .inl ⟨hb, by simp [escapeFrom, hb]⟩
      | false => exact .inr (.inl ⟨hb, rfl, by simp [escapeFrom, hb, hl]⟩)
  · by_cases hq : c = '"'
    · subst hq
      cases slashed with
      | true => exact .inr (.inr (.inl ⟨rfl, rfl, by simp [escapeFrom, hb]⟩))
      | false => exact .inr (.inr (.inr (.inl ⟨rfl, rfl, by simp [escapeFrom, hb]⟩)))
    · exact .inr (.inr (.inr (.inr ⟨by simpa using hb, hq, by simp [escapeFrom, hb, hq]⟩)))

/-- Behind a backslash only a quote is treated differently. -/
theorem escapeFrom_slashed {cs : List Char} (h : cs.head? ≠ some '"') :
    escapeFrom false true cs = escapeFrom false false cs := by
  cases cs with
  | nil => rfl
  | cons c cs =>
    have hc : c ≠ '"' := fun hc => h (by rw [hc]; rfl)
    simp [escapeFrom, hc]

theorem substituteFrom_eq_escapeFrom (cs : List Char) :
    substituteFrom literalRule 0 cs = escapeFrom false false cs ∧
      substituteFrom literalRule (cs.takeWhile isAsciiBlank).length cs = escapeFrom true false cs ∧
      ∀ tail, cs = '"' :: tail → substituteFrom literalRule 0 tail = escapeFrom false false tail := by
  induction cs with
  | nil => exact ⟨rfl, rfl, fun _ h => by cases h⟩
  | cons c cs ih =>
    obtain ⟨hout, hrun, hquote⟩ := ih
    have hlast : ∀ tail, c :: cs = '"' :: tail →
        substituteFrom literalRule 0 tail = escapeFrom false false tail := by
      rintro tail h
      rw [← (List.cons.inj h).2]
      exact hout
    by_cases hb : isAsciiBlank c
    · refine ⟨?_, ?_, hlast⟩
      · by_cases hl : isLineBreak c
        · simpa [substituteFrom, literalRule, escapeFrom, hb, hl] using hout
        · simpa [substituteFrom, literalRule, escapeFrom, hb, hl] using hrun
      · simpa [substituteFrom, escapeFrom, hb] using hrun
    · have hl : isLineBreak c = false :=
        Bool.eq_false_iff.mpr fun hl => hb (isAsciiBlank_of_isLineBreak hl)
      have hstep : substituteFrom literalRule 0 (c :: cs) = escapeFrom false false (c :: cs) := by
        by_cases hq : c = '"'
        · subst hq
          simpa [substituteFrom, literalRule, escapeFrom, hb, hl] using hout
        · by_cases hs : c = '\\'
          · subst hs
            by_cases hnext : cs.head? = some '"'
            · -- the rule takes the backslash and the quote at once
              obtain ⟨tail, rfl⟩ : ∃ tail, cs = '"' :: tail := by
                cases cs with
                | nil => cases hnext
                | cons d tail => exact ⟨tail, by rw [Option.some.inj hnext]⟩
              have htail := hquote tail rfl
              show '\\' :: '"' :: substituteFrom literalRule 0 tail =
                '\\' :: '"' :: escapeFrom false false tail
              rw [htail]
            · have hkeep : escapeFrom false true cs = escapeFrom false false cs :=
                escapeFrom_slashed hnext
              simpa [substituteFrom, literalRule, escapeFrom, hb, hl, hnext, hkeep] using hout
          · have hs : (c == '\\') = false := beq_eq_false_iff_ne.mpr hs
            simpa [substituteFrom, literalRule, escapeFrom, hb, hl, hq, hs] using hout
      refine ⟨hstep, ?_, hlast⟩
      rw [List.takeWhile_cons_of_neg hb, List.length_nil, hstep]
      simp [escapeFrom, hb]

/-- **The written form in one pass.** -/
theorem literalBody_eq_escapeFrom (cs : List Char) : literalBody cs = escapeFrom false false cs :=
  (substituteFrom_eq_escapeFrom cs).1

/-- No line break is left, whatever the text. -/
theorem not_isLineBreak_of_mem_escapeFrom {spaced slashed : Bool} {cs : List Char} {c : Char}
    (h : c ∈ escapeFrom spaced slashed cs) : isLineBreak c = false := by
  induction cs generalizing spaced slashed with
  | nil => simp [escapeFrom] at h
  | cons d ds ih =>
    rcases escapeFrom_cons spaced slashed d ds with
      ⟨-, hw⟩ | ⟨-, -, hw⟩ | ⟨-, -, hw⟩ | ⟨-, -, hw⟩ | ⟨hb, -, hw⟩
    · rw [hw] at h
      exact ih h
    · rw [hw] at h
      rcases List.mem_cons.mp h with rfl | h
      · rfl
      · exact ih h
    · rw [hw] at h
      rcases List.mem_cons.mp h with rfl | h
      · rfl
      · exact ih h
    · rw [hw] at h
      rcases List.mem_cons.mp h with rfl | h
      · rfl
      · rcases List.mem_cons.mp h with rfl | h
        · rfl
        · exact ih h
    · rw [hw] at h
      rcases List.mem_cons.mp h with rfl | h
      · refine Bool.eq_false_iff.mpr fun hl => ?_
        rw [isAsciiBlank_of_isLineBreak hl] at hb
        cases hb
      · exact ih h

/-! ## Blocks -/

/-- A backslash or a line break. -/
def isJoint (c : Char) : Bool :=
  c == '\\' || isLineBreak c

/-- The maximal blocks of backslashes and line breaks, each with the character behind it, `block`
being what has been passed of the first one. A block may be empty. -/
def blocksFrom (block : List Char) : List Char → List (List Char × Option Char)
  | [] => [(block, none)]
  | c :: cs =>
    if isJoint c then blocksFrom (block ++ [c]) cs else (block, some c) :: blocksFrom [] cs

/-- The maximal blocks of backslashes and line breaks of a text. -/
def blocks (cs : List Char) : List (List Char × Option Char) :=
  blocksFrom [] cs

/-- Whether a block has an odd number of backslashes. -/
def isOdd (block : List Char) : Bool :=
  block.count '\\' % 2 == 1

/-- Whether a block ends with a backslash. -/
def isSlashed (block : List Char) : Bool :=
  block.getLast? == some '\\'

/-- In front of a quote a block is harmless if its backslashes are odd in number where the last of
them stands right before the quote, and even in number elsewhere. At the end of the text they must
be even in number, and in front of another character the block does not matter. -/
def Harmless (block : List Char) : Option Char → Prop
  | some c => c = '"' → isOdd block = isSlashed block
  | none => isOdd block = false

/-- Every block of the text is harmless. -/
def Closable (cs : List Char) : Prop :=
  ∀ b ∈ blocks cs, Harmless b.1 b.2

instance (block : List Char) (next : Option Char) : Decidable (Harmless block next) :=
  match next with
  | some c => inferInstanceAs (Decidable (c = '"' → isOdd block = isSlashed block))
  | none => inferInstanceAs (Decidable (isOdd block = false))

instance (cs : List Char) : Decidable (Closable cs) :=
  inferInstanceAs (Decidable (∀ b ∈ blocks cs, Harmless b.1 b.2))

@[simp] theorem isOdd_nil : isOdd [] = false := rfl
@[simp] theorem isSlashed_nil : isSlashed [] = false := rfl

theorem isOdd_backslash (block : List Char) : isOdd (block ++ ['\\']) = !isOdd block := by
  simp only [isOdd, List.count_append, List.count_singleton_self]
  rcases Nat.mod_two_eq_zero_or_one (block.count '\\') with h | h
  · simp [h, Nat.add_mod]
  · simp [h, Nat.add_mod]

theorem isOdd_other {c : Char} (hc : c ≠ '\\') (block : List Char) :
    isOdd (block ++ [c]) = isOdd block := by
  simp [isOdd, List.count_append, hc]

theorem isSlashed_append (block : List Char) (c : Char) :
    isSlashed (block ++ [c]) = (c == '\\') := by
  simp [isSlashed]

/-- A text without backslashes has harmless blocks only. -/
theorem closable_of_notMem {cs : List Char} (h : '\\' ∉ cs) : Closable cs := by
  have hall : ∀ block : List Char, '\\' ∉ block →
      ∀ b ∈ blocksFrom block cs, Harmless b.1 b.2 := by
    induction cs with
    | nil =>
      intro block hblock
      simp [blocksFrom, Harmless, isOdd, List.count_eq_zero.mpr hblock]
    | cons c cs ih =>
      intro block hblock
      obtain ⟨hc, hcs⟩ := not_or.mp (mt List.mem_cons.mpr h)
      rw [blocksFrom]
      split
      · exact ih hcs (block ++ [c]) (by simp [hblock, hc])
      · have hodd : isOdd block = false := by simp [isOdd, List.count_eq_zero.mpr hblock]
        have hslashed : isSlashed block = false := by
          refine beq_eq_false_iff_ne.mpr fun hlast => hblock ?_
          exact List.mem_of_getLast? hlast
        refine List.forall_mem_cons.mpr ⟨fun _ => hodd.trans hslashed.symm, ?_⟩
        exact ih hcs [] List.not_mem_nil
  exact hall [] List.not_mem_nil

/-- **The scan of a written text** closes at the quote behind it exactly if the blocks that are to
come are harmless. What has been passed of the present block says whether the next character is
taken and whether it stands behind a backslash. -/
theorem closingFrom_escapeFrom (spaced : Bool) (block cs : List Char)
    (hspaced : spaced = true → isOdd block = false) (rest : List Char) :
    closingFrom (isOdd block) (escapeFrom spaced (isSlashed block) cs ++ '"' :: rest) =
        some rest ↔ ∀ b ∈ blocksFrom block cs, Harmless b.1 b.2 := by
  induction cs generalizing spaced block with
  | nil =>
    simp only [escapeFrom, blocksFrom, List.nil_append, List.forall_mem_singleton, Harmless]
    cases hodd : isOdd block with
    | false => simp
    | true =>
      -- the quote is taken, so that what is left is shorter than `rest`
      simp only [closingFrom_taken, Bool.true_eq_false, iff_false]
      intro h
      exact Nat.lt_irrefl _ (closingFrom_length h)
  | cons c cs ih =>
    have hlonger : ∀ body : List Char, some (body ++ '"' :: rest) ≠ some rest := by
      intro body h
      have hlen := congrArg List.length (Option.some.inj h)
      rw [List.length_append, List.length_cons] at hlen
      omega
    by_cases hb : isAsciiBlank c
    · have hs : c ≠ '\\' := by
        rintro rfl
        cases hb
      by_cases hl : isLineBreak c
      · -- a line break leaves no trace, and goes on with the block
        have hodd := isOdd_other hs block
        have hnext := ih spaced (block ++ [c]) (by rwa [hodd])
        rw [hodd, isSlashed_append, beq_eq_false_iff_ne.mpr hs] at hnext
        have hwritten : escapeFrom spaced (isSlashed block) (c :: cs) =
            escapeFrom spaced false cs := by
          cases spaced <;> simp [escapeFrom, hb, hl]
        rw [hwritten, hnext, blocksFrom, isJoint, hl, Bool.or_true, if_pos rfl]
      · -- any other blank leaves a space at most, behind which nothing is taken
        have hnext := ih true [] (fun _ => rfl)
        have hq : c ≠ '"' := by
          rintro rfl
          cases hb
        have hscan : closingFrom (isOdd block)
            (escapeFrom spaced (isSlashed block) (c :: cs) ++ '"' :: rest) =
              closingFrom false (escapeFrom true false cs ++ '"' :: rest) := by
          cases spaced with
          | true => simp [escapeFrom, hb, hspaced]
          | false =>
            have hspace : isLineBreak ' ' = false := rfl
            simp [escapeFrom, hb, hl, closingFrom_other _ _ hspace]
        have hjoint : isJoint c = false := by simp [isJoint, hs, hl]
        rw [hscan]
        simpa [blocksFrom, hjoint, Harmless, hq] using hnext
    · have hl : isLineBreak c = false :=
        Bool.eq_false_iff.mpr fun hl => hb (isAsciiBlank_of_isLineBreak hl)
      have hafter := ih false [] (fun h => by cases h)
      by_cases hq : c = '"'
      · subst hq
        have hblocks : (∀ b ∈ blocksFrom block ('"' :: cs), Harmless b.1 b.2) ↔
            isOdd block = isSlashed block ∧ ∀ b ∈ blocksFrom [] cs, Harmless b.1 b.2 := by
          have hjoint : isJoint '"' = false := rfl
          simp [blocksFrom, hjoint, Harmless]
        rw [hblocks, ← hafter]
        cases hodd : isOdd block <;> cases hslashed : isSlashed block
        · simp [escapeFrom, hb, closingFrom_backslash]
        · -- a quote that nothing takes closes too early
          simp [escapeFrom, hb, hlonger]
        · -- its own backslash is taken, so that the quote closes too early
          simp [escapeFrom, hb, closingFrom_backslash, hlonger]
        · simp [escapeFrom, hb]
      · by_cases hs : c = '\\'
        · subst hs
          have hnext := ih false (block ++ ['\\']) (fun h => by cases h)
          rw [isOdd_backslash, isSlashed_append] at hnext
          simpa [escapeFrom, blocksFrom, hb, isJoint, closingFrom_backslash] using hnext
        · have hjoint : isJoint c = false := by simp [isJoint, hs, hl]
          have hslash : (c == '\\') = false := beq_eq_false_iff_ne.mpr hs
          simpa [escapeFrom, blocksFrom, hb, hq, hjoint, hslash, Harmless,
            closingFrom_other hq hs hl] using hafter

/-- **Where the literal of a text closes**: at the quote written behind it, exactly if every block
of the text is harmless. -/
theorem closing_literalBody (cs rest : List Char) :
    closing (literalBody cs ++ '"' :: rest) = some rest ↔ Closable cs := by
  rw [literalBody_eq_escapeFrom]
  exact closingFrom_escapeFrom false [] cs (fun h => by cases h) rest

end DomScript.Text
