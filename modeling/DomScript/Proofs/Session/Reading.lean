/-
DomScript.Proofs.Session.Reading — a page is read as a whole or not at all.

A reader hands out the bytes of a page in pieces, and may be interrupted between them. Only the
bytes in a row count: they may be cut anywhere, also within a character. A read that fails ends the
reading, and what was read before it leaves no trace.

* `collect_append` — what is read before anything fails stands in front of what is to come;
* `parse_whole_or_nothing` — the page of a reader.
-/
import DomScript.Proofs.Session.History
import DomScript.Proofs.Text.Utf8

namespace DomScript

open Text.Utf8

namespace ReadStep

/-! ## Readers -/

/-- The bytes that one read hands out. -/
def handed : ReadStep → List UInt8
  | .bytes chunk => chunk
  | _ => []

/-- All bytes that a reader hands out, in a row. -/
def joined (reads : List ReadStep) : List UInt8 :=
  reads.flatMap handed

/-- Why a read failed, if it did; being interrupted is no failure. -/
def failure? : ReadStep → Option ReadFailure
  | .failed failure => some failure
  | _ => none

/-- No read fails. -/
def Unbroken (reads : List ReadStep) : Prop :=
  ∀ r ∈ reads, r.failure? = none

instance (reads : List ReadStep) : Decidable (Unbroken reads) :=
  inferInstanceAs (Decidable (∀ r ∈ reads, r.failure? = none))

/-- A reader that fails has a first failure. -/
theorem exists_first_failure {reads : List ReadStep} (h : ¬Unbroken reads) :
    ∃ before failure after, reads = before ++ .failed failure :: after ∧ Unbroken before := by
  induction reads with
  | nil => exact absurd (List.forall_mem_nil _) h
  | cons r reads ih =>
    have hnext : r.failure? = none → ∃ before failure after,
        r :: reads = before ++ .failed failure :: after ∧ Unbroken before := by
      intro hr
      obtain ⟨before, failure, after, rfl, hbefore⟩ :=
        ih fun hreads => h (List.forall_mem_cons.mpr ⟨hr, hreads⟩)
      exact ⟨r :: before, failure, after, rfl, List.forall_mem_cons.mpr ⟨hr, hbefore⟩⟩
    cases r with
    | bytes chunk => exact hnext rfl
    | interrupted => exact hnext rfl
    | failed failure => exact ⟨[], failure, reads, rfl, List.forall_mem_nil _⟩

/-! ## Collecting -/

/-- What is read before anything fails stands in front of what is to come. -/
theorem collect_append {reads : List ReadStep} (h : Unbroken reads) (others : List ReadStep) :
    collect (reads ++ others) = (collect others).map (joined reads ++ ·) := by
  induction reads with
  | nil =>
    rw [List.nil_append]
    cases collect others <;> rfl
  | cons r reads ih =>
    obtain ⟨hr, hreads⟩ := List.forall_mem_cons.mp h
    cases r with
    | bytes chunk =>
      have hjoined : joined (.bytes chunk :: reads) = chunk ++ joined reads := rfl
      rw [List.cons_append, collect, ih hreads, hjoined]
      cases collect others with
      | error failure => rfl
      | ok bytes => simp only [Except.map, List.append_assoc]
    | interrupted => exact ih hreads
    | failed failure => cases hr

theorem collect_unbroken {reads : List ReadStep} (h : Unbroken reads) :
    collect reads = .ok (joined reads) := by
  simpa [collect, Except.map] using collect_append h []

/-- The first failure is the one that counts. -/
theorem collect_failed {before : List ReadStep} (h : Unbroken before) (failure : ReadFailure)
    (after : List ReadStep) : collect (before ++ .failed failure :: after) = .error failure := by
  rw [collect_append h]
  rfl

end ReadStep

namespace Session

open ReadStep

/-! ## Pages -/

/-- The text of the bytes that a text is written in. -/
theorem pageText_encode (html : String) : pageText (encode html.toList) = html := by
  rw [pageText, decode_encode, String.ofList_toList]

variable (parser : PageParser)

/-- Bytes that are read at once are read without a failure. -/
theorem parse_bytes (s : Session) (bytes : List UInt8) :
    s.parse parser [.bytes bytes] =
      (.ok (s.parseText parser (pageText bytes)).1, (s.parseText parser (pageText bytes)).2) := by
  simp only [Session.parse, ReadStep.collect, Except.map, List.append_nil]

/-- Only the bytes of a reader count. -/
theorem parse_of_collect {s : Session} {reads : List ReadStep} {bytes : List UInt8}
    (h : ReadStep.collect reads = .ok bytes) :
    s.parse parser reads = s.parse parser [.bytes bytes] := by
  rw [parse_bytes]
  simp only [Session.parse, h]

theorem apply_parse_unbroken (s : Session) {reads : List ReadStep} (h : Unbroken reads) :
    s.apply parser (.parse reads) = s.apply parser (.parseText (pageText (joined reads))) := by
  simp only [apply, parse, collect_unbroken h]

theorem apply_parse_failed (s : Session) {before : List ReadStep} (h : Unbroken before)
    (failure : ReadFailure) (after : List ReadStep) :
    s.apply parser (.parse (before ++ .failed failure :: after)) = (.failed failure, s) := by
  simp only [apply, parse, collect_failed h]

/-- **A page is read as a whole or not at all**, whatever parser gets its text. If no read fails,
the page is converted as the text of all bytes in a row: it does not matter where they are cut, and
bytes that a text is written in give that text. If a read fails, the first failure is reported, and
the session is as it was. -/
theorem parse_whole_or_nothing (s : Session) (reads : List ReadStep) :
    (Unbroken reads →
      s.apply parser (.parse reads) = s.apply parser (.parseText (pageText (joined reads))) ∧
      (∀ others, Unbroken others → joined others = joined reads →
        s.apply parser (.parse others) = s.apply parser (.parse reads)) ∧
      ∀ html : String, joined reads = encode html.toList →
        s.apply parser (.parse reads) = s.apply parser (.parseText html)) ∧
    (¬Unbroken reads → ∃ before failure after,
      reads = before ++ .failed failure :: after ∧ Unbroken before ∧
        s.apply parser (.parse reads) = (.failed failure, s)) := by
  refine ⟨fun hreads => ⟨apply_parse_unbroken parser s hreads, fun others hothers hbytes => ?_,
    fun html hbytes => ?_⟩, fun hreads => ?_⟩
  · rw [apply_parse_unbroken parser s hothers, apply_parse_unbroken parser s hreads, hbytes]
  · rw [apply_parse_unbroken parser s hreads, hbytes, pageText_encode]
  · obtain ⟨before, failure, after, rfl, hbefore⟩ := exists_first_failure hreads
    exact ⟨before, failure, after, rfl, hbefore, s.apply_parse_failed parser hbefore failure after⟩

/-- A page that is cut within its last character, with an interruption there, and one that breaks
off behind some of its bytes. -/
theorem parse_whole_or_nothing_specimen :
    let s := Session.new .default
    let whole : List ReadStep := [.bytes [0x3C, 0x70, 0x3E, 0xC3, 0xA9]]
    let cut : List ReadStep := [.bytes [0x3C, 0x70, 0x3E, 0xC3], .interrupted, .bytes [0xA9]]
    let broken : List ReadStep := [.bytes [0x3C, 0x70], .failed ⟨"Other", "gone"⟩, .bytes [0x3E]]
    s.apply .paragraph (.parse cut) = s.apply .paragraph (.parseText "<p>é") ∧
    s.apply .paragraph (.parse whole) = s.apply .paragraph (.parse cut) ∧
    ∃ failure, s.apply .paragraph (.parse broken) = (.failed failure, s) := by
  intro s whole cut broken
  obtain ⟨-, hcut, htext⟩ := (parse_whole_or_nothing .paragraph s cut).1 (by decide)
  obtain ⟨-, failure, -, -, -, hbroken⟩ :=
    (parse_whole_or_nothing .paragraph s broken).2 (by decide)
  exact ⟨htext "<p>é" (by decide +kernel), hcut whole (by decide) (by decide), failure, hbroken⟩

end Session

end DomScript
