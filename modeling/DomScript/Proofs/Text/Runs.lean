/-
DomScript.Proofs.Text.Runs — what a literal holds, read off the text run by run.

The written form of a text is made by a scan from left to right. It can be told without a scan: cut
the text into its maximal runs of ASCII blanks and of other characters, each character together with
the one right before it in the text. A run of blanks leaves nothing if it is made of line breaks and
one space otherwise; elsewhere a quote gets a backslash unless one stands right before it, and all
else is kept.

* `escapeFrom_run` — the scan of one run, in front of anything that ends the run;
* `escape_eq_rewritten` — the scan of a text is what its runs leave.
-/
import Mathlib.Data.List.SplitBy
import Mathlib.Data.List.TakeWhile
import DomScript.Proofs.Text.Closing

namespace DomScript.Text

/-! ## Characters in their places -/

/-- Every character of a text with the one right before it, `prev` being the one before the text. -/
def withPrevious (prev : Option Char) (cs : List Char) : List (Option Char × Char) :=
  (prev :: cs.map some).zip cs

/-- Both are blanks, or neither is. -/
def sameKind (a b : Option Char × Char) : Bool :=
  isAsciiBlank a.2 == isAsciiBlank b.2

/-- A character other than a blank: a quote gets a backslash if none stands before it. -/
def guardQuote (a : Option Char × Char) : List Char :=
  if a.2 = '"' ∧ a.1 ≠ some '\\' then ['\\', '"'] else [a.2]

/-- What a run of blanks or of other characters leaves. -/
def writeRun (run : List (Option Char × Char)) : List Char :=
  if run.all fun a => isAsciiBlank a.2 then collapseRun (run.map Prod.snd) else run.flatMap guardQuote

/-- What the maximal runs of a text leave. -/
def rewritten (cs : List Char) : List Char :=
  ((withPrevious none cs).splitBy sameKind).flatMap writeRun

@[simp] theorem withPrevious_nil (prev : Option Char) : withPrevious prev [] = [] := rfl

@[simp] theorem withPrevious_cons (prev : Option Char) (c : Char) (cs : List Char) :
    withPrevious prev (c :: cs) = (prev, c) :: withPrevious (some c) cs := rfl

/-- What stands before the rest of a text. -/
theorem getLast?_or (prev : Option Char) (c : Char) (cs : List Char) :
    (c :: cs).getLast?.or prev = cs.getLast?.or (some c) := by
  rw [List.getLast?_cons]
  cases cs.getLast? <;> rfl

theorem withPrevious_append (prev : Option Char) (cs ds : List Char) :
    withPrevious prev (cs ++ ds) = withPrevious prev cs ++ withPrevious (cs.getLast?.or prev) ds := by
  induction cs generalizing prev with
  | nil => rfl
  | cons c cs ih =>
    rw [List.cons_append, withPrevious_cons, ih, withPrevious_cons, List.cons_append, getLast?_or]

@[simp] theorem map_snd_withPrevious (prev : Option Char) (cs : List Char) :
    (withPrevious prev cs).map Prod.snd = cs := by
  induction cs generalizing prev with
  | nil => rfl
  | cons c cs ih => rw [withPrevious_cons, List.map_cons, ih]

theorem mem_of_mem_withPrevious {prev : Option Char} {cs : List Char} {a : Option Char × Char}
    (h : a ∈ withPrevious prev cs) : a.2 ∈ cs := by
  rw [← map_snd_withPrevious prev cs]
  exact List.mem_map_of_mem h

/-! ## The scan of one run -/

/-- A run of blanks, in front of something else. -/
theorem escapeFrom_blanks {run rest : List Char} (hrun : ∀ c ∈ run, isAsciiBlank c = true)
    (hrest : ∀ c ∈ rest.head?, isAsciiBlank c = false) (spaced : Bool) :
    escapeFrom spaced false (run ++ rest) =
      (if spaced then [] else collapseRun run) ++ escapeFrom false false rest := by
  induction run generalizing spaced with
  | nil =>
    cases rest with
    | nil => cases spaced <;> rfl
    | cons c rest =>
      have hc : isAsciiBlank c = false := hrest c rfl
      cases spaced <;> simp [escapeFrom, hc, collapseRun]
  | cons c run ih =>
    obtain ⟨hc, hrun⟩ := List.forall_mem_cons.mp hrun
    rw [List.cons_append, escapeFrom, if_pos hc]
    cases spaced with
    | true => simpa using ih hrun true
    | false =>
      by_cases hl : isLineBreak c
      · simpa [hl, collapseRun] using ih hrun false
      · simpa [hl, collapseRun] using ih hrun true

/-- A run of other characters, in front of anything. -/
theorem escapeFrom_word {run : List Char} (hrun : ∀ c ∈ run, isAsciiBlank c = false)
    (prev : Option Char) (rest : List Char) :
    escapeFrom false (prev == some '\\') (run ++ rest) =
      (withPrevious prev run).flatMap guardQuote ++
        escapeFrom false (run.getLast?.or prev == some '\\') rest := by
  induction run generalizing prev with
  | nil => rfl
  | cons c run ih =>
    obtain ⟨hc, hrun⟩ := List.forall_mem_cons.mp hrun
    have hnext := ih hrun (some c)
    rw [getLast?_or, withPrevious_cons, List.flatMap_cons, List.append_assoc, ← hnext, List.cons_append]
    by_cases hq : c = '"'
    · subst hq
      by_cases hp : prev = some '\\' <;> simp [escapeFrom, hc, hp, guardQuote]
    · simp [escapeFrom, hc, hq, guardQuote]

theorem writeRun_blanks (prev : Option Char) {run : List Char}
    (hrun : ∀ c ∈ run, isAsciiBlank c = true) : writeRun (withPrevious prev run) = collapseRun run := by
  have hall : ((withPrevious prev run).all fun a => isAsciiBlank a.2) = true :=
    List.all_eq_true.mpr fun a ha => hrun _ (mem_of_mem_withPrevious ha)
  rw [writeRun, if_pos hall, map_snd_withPrevious]

theorem writeRun_word (prev : Option Char) {run : List Char} (hne : run ≠ [])
    (hrun : ∀ c ∈ run, isAsciiBlank c = false) :
    writeRun (withPrevious prev run) = (withPrevious prev run).flatMap guardQuote := by
  obtain ⟨c, run, rfl⟩ := List.exists_cons_of_ne_nil hne
  have hc : isAsciiBlank c = false := hrun c (List.mem_cons_self ..)
  rw [writeRun, withPrevious_cons, List.all_cons, hc, Bool.false_and, if_neg Bool.false_ne_true]

/-- **One maximal run** is scanned by itself, of whichever kind it is. -/
theorem escapeFrom_run {run rest : List Char} {kind : Bool} (prev : Option Char) (hne : run ≠ [])
    (hrun : ∀ a ∈ run, isAsciiBlank a = kind) (hrest : ∀ a ∈ rest.head?, isAsciiBlank a ≠ kind) :
    escapeFrom false (prev == some '\\') (run ++ rest) =
      writeRun (withPrevious prev run) ++
        escapeFrom false (run.getLast?.or prev == some '\\') rest := by
  cases kind with
  | true =>
    -- a blank is no backslash, so the scan does not depend on what stands before the run
    have hstart : escapeFrom false (prev == some '\\') (run ++ rest) =
        escapeFrom false false (run ++ rest) := by
      obtain ⟨c, run, rfl⟩ := List.exists_cons_of_ne_nil hne
      simp [escapeFrom, hrun c (List.mem_cons_self ..)]
    have hend : (run.getLast?.or prev == some '\\') = false := by
      have hblank := hrun _ (List.getLast_mem hne)
      rw [List.getLast?_eq_some_getLast hne, Option.some_or]
      refine beq_eq_false_iff_ne.mpr fun hlast => ?_
      rw [Option.some.inj hlast] at hblank
      cases hblank
    have hother : ∀ a ∈ rest.head?, isAsciiBlank a = false :=
      fun a ha => Bool.eq_false_iff.mpr (hrest a ha)
    rw [hstart, hend, escapeFrom_blanks hrun hother, writeRun_blanks prev hrun]
    rfl
  | false => rw [escapeFrom_word hrun, writeRun_word prev hne hrun]

/-! ## The scan of a text -/

/-- The first run of a text and what follows it. -/
theorem exists_run (c : Char) (cs : List Char) :
    ∃ run rest, c :: cs = run ++ rest ∧ run ≠ [] ∧ (∀ a ∈ run, isAsciiBlank a = isAsciiBlank c) ∧
      ∀ a ∈ rest.head?, isAsciiBlank a ≠ isAsciiBlank c := by
  refine ⟨(c :: cs).takeWhile fun a => isAsciiBlank a == isAsciiBlank c,
    (c :: cs).dropWhile fun a => isAsciiBlank a == isAsciiBlank c, ?_, ?_, ?_, ?_⟩
  · exact List.takeWhile_append_dropWhile.symm
  · simp
  · intro a ha
    have hkind := List.mem_takeWhile_imp ha
    exact beq_iff_eq.mp hkind
  · intro a ha
    have hend := List.head?_dropWhile_not (fun a => isAsciiBlank a == isAsciiBlank c) (c :: cs)
    rw [Option.mem_def.mp ha] at hend
    exact beq_eq_false_iff_ne.mp hend

/-- Cutting off the first run. -/
theorem splitBy_run {run rest : List Char} {kind : Bool} (prev : Option Char) (hne : run ≠ [])
    (hrun : ∀ a ∈ run, isAsciiBlank a = kind) (hrest : ∀ a ∈ rest.head?, isAsciiBlank a ≠ kind) :
    (withPrevious prev (run ++ rest)).splitBy sameKind =
      withPrevious prev run :: (withPrevious (run.getLast?.or prev) rest).splitBy sameKind := by
  have hkind : ∀ a ∈ withPrevious prev run, isAsciiBlank a.2 = kind :=
    fun a ha => hrun _ (mem_of_mem_withPrevious ha)
  have hchain : (withPrevious prev run).IsChain fun a b => sameKind a b := by
    refine (List.pairwise_of_forall_mem_list fun a ha b hb => ?_).isChain
    rw [sameKind, hkind a ha, hkind b hb, beq_self_eq_true]
  have hne' : withPrevious prev run ≠ [] := by
    intro h
    have := congrArg (List.map Prod.snd) h
    exact hne (by simpa using this)
  rw [withPrevious_append, List.splitBy_append, List.splitBy_of_isChain hne' hchain,
    List.singleton_append]
  intro a ha b hb
  have hb : b.2 ∈ rest.head? := by
    have := Option.mem_map_of_mem Prod.snd hb
    rwa [← List.head?_map, map_snd_withPrevious] at this
  rw [sameKind, hkind a (List.mem_of_mem_getLast? ha)]
  exact beq_eq_false_iff_ne.mpr (Ne.symm (hrest _ hb))

/-- **The scan is what the runs leave**, wherever the text stands. -/
theorem escapeFrom_eq_runs (prev : Option Char) (cs : List Char) :
    escapeFrom false (prev == some '\\') cs =
      ((withPrevious prev cs).splitBy sameKind).flatMap writeRun := by
  -- the induction is on the length, as a step takes a whole run off
  induction hn : cs.length using Nat.strongRecOn generalizing prev cs with
  | ind n ih =>
    cases cs with
    | nil => rfl
    | cons c cs =>
      obtain ⟨run, rest, hsplit, hne, hrun, hrest⟩ := exists_run c cs
      have hshorter : rest.length < n := by
        have hpos := List.length_pos_iff.mpr hne
        rw [← hn, hsplit, List.length_append]
        omega
      rw [hsplit, escapeFrom_run prev hne hrun hrest, splitBy_run prev hne hrun hrest,
        List.flatMap_cons, ih rest.length hshorter _ rest rfl]

/-- **What a literal holds** is what the maximal runs of the text leave. -/
theorem escape_eq_rewritten (s : String) : escape s = .ofList (rewritten s.toList) := by
  rw [escape, literalBody_eq_escapeFrom, rewritten, ← escapeFrom_eq_runs]
  rfl

/-- A run of every kind, a quote behind a backslash, one behind a line break, and a space of
Unicode. -/
example : rewritten "\\\"\r\n\"\n\t x\u00a0".toList = "\\\"\\\" x\u00a0".toList := by
  decide

end DomScript.Text
