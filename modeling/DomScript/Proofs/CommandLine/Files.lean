/-
DomScript.Proofs.CommandLine.Files — what a run does to the files.

A run that nothing hinders gives its sink the script of the page, in full and nothing else; a file
is then replaced whatever it held, and no other file is touched. A run that fails before its output
is there changes nothing. Since the output is emptied before the input is read, the content of one
file can be lost nevertheless: that of the output when reading fails or when writing is refused, and
that of an input that is the output too.

* `run_unhindered`, `run_writes_script` — the runs that nothing hinders;
* `run_failed`, `run_unread`, `run_unwritten`, `run_onto_input` — the other runs;
* `run_preserves` — what runs leave.
-/
import DomScript.Proofs.CommandLine.Logging

namespace DomScript.CommandLine.Directory

variable {parser : PageParser} {d : Directory} {args : List String} {a : Arguments}
  {source : Source} {sink : Sink} {bytes : List UInt8}

/-! ## Runs that nothing hinders -/

/-- The input opens and reads, and the output can be created, is not the input, and takes all of the
script. -/
structure Unhindered (parser : PageParser) (d : Directory) (a : Arguments) (source : Source)
    (sink : Sink) (bytes : List UInt8) : Prop where
  opens : d.openInput a.input = .ok source
  creates : (d.createOutput a.output).1 = .ok sink
  apart : ∀ name, source = .file name → sink ≠ .file name
  reads : ReadStep.collect (d.read source) = .ok bytes
  accepts : ((d.createOutput a.output).2.write sink (a.script parser bytes)).1 = .ok ()

/-- What an output accepts is all behind what it held. -/
theorem write_accepted (h : (d.write sink bytes).1 = .ok ()) :
    d.write sink bytes = (.ok (), d.extend sink bytes) := by
  rcases d.write_cases sink bytes with hw | ⟨e, taken, hw, -⟩
  · exact hw
  · rw [hw] at h
    cases h

/-- A run that nothing hinders ends with the write. -/
theorem run_unhindered (hargs : Arguments.read args = .run a)
    (h : Unhindered parser d a source sink bytes) :
    d.run parser args =
      (.success, ((d.createOutput a.output).2.write sink (a.script parser bytes)).2) := by
  obtain ⟨hopens, hcreates, hapart, hreads, haccepts⟩ := h
  rcases hcreated : d.createOutput a.output with ⟨result, created⟩
  rw [hcreated] at hcreates haccepts
  obtain rfl : result = .ok sink := hcreates
  rw [← read_created hcreated hapart] at hreads
  rw [run_created hargs hopens hcreated, transfer_read a hreads, haccepts]

/-- Without a path the output is the standard output. -/
theorem sink_of_none (h : Unhindered parser d a source sink bytes) (ha : a.output = none) :
    sink = .stdout := by
  have hcreates := h.creates
  rw [ha] at hcreates
  cases hcreates
  rfl

/-- **A run that nothing hinders writes the script of its page** to its sink, and does nothing else
than creating and writing that; the script is that of the library, whatever parser reads the page.
In a file the script takes the place of what was there. What is said about logging matters to no
run, unless it is what makes the arguments a misuse. -/
theorem run_writes_script (parser : PageParser) (d : Directory) :
    (∀ (args : List String) (a : Arguments) (source : Source) (sink : Sink) (bytes : List UInt8),
      Arguments.read args = .run a → Unhindered parser d a source sink bytes →
        let after := (d.run parser args).2
        d.run parser args =
            (.success, ((d.createOutput a.output).2.write sink (a.script parser bytes)).2) ∧
          (d.run parser args).1.code = 0 ∧
          (a.output = none → sink = .stdout) ∧
          (sink = .stdout → after = { d with stdout := d.stdout ++ a.script parser bytes }) ∧
          (∀ name, sink = .file name →
            after.file? name = some (a.script parser bytes) ∧ after.stdout = d.stdout ∧
              ∀ other, other ≠ name → after.file? other = d.file? other) ∧
          (sink = .discard ∨ sink = .full → after = d)) ∧
      ∀ args others : List String, Argument.withoutLogging args = Argument.withoutLogging others →
        d.run parser args = (.misuse, d) ∨ d.run parser others = (.misuse, d) ∨
          d.run parser args = d.run parser others := by
  refine ⟨fun args a source sink bytes hargs h => ?_, fun args others hsame => ?_⟩
  · have hrun := run_unhindered hargs h
    have hwrite := write_accepted h.accepts
    rcases hcreated : d.createOutput a.output with ⟨result, created⟩
    have hcreates := h.creates
    rw [hcreated] at hrun hcreates hwrite
    obtain rfl : result = .ok sink := hcreates
    have hreceived := received_extend hcreated (a.script parser bytes)
    rw [hrun]
    dsimp only
    rw [hwrite]
    refine ⟨rfl, rfl, sink_of_none h, ?_, ?_, ?_⟩
    · rintro rfl
      obtain rfl := created_eq hcreated (by simp)
      rfl
    · rintro name rfl
      refine ⟨?_, ?_, fun other hother => ?_⟩
      · rw [hreceived.files, if_pos rfl]
      · rw [hreceived.stdout, if_neg (by simp)]
      · rw [hreceived.files, if_neg (by simpa using hother.symm)]
    · rintro (rfl | rfl)
      · exact created_eq hcreated (by simp)
      · exact created_eq hcreated (by simp)
  · rcases d.run_unlogged parser args with hargs | hargs
    · exact .inl hargs
    · rcases d.run_unlogged parser others with hothers | hothers
      · exact .inr (.inl hothers)
      · exact .inr (.inr (by rw [← hargs, ← hothers, hsame]))

theorem run_writes_script_specimen :
    let d : Directory := { files := [("page", [0x3C, 0x70, 0x3E]), ("script", [0x21])] }
    let a : Arguments := { input := some "page", output := some "script", verbose := true }
    let args := ["-i", "page", "--verbose", "-o", "script"]
    (d.run .paragraph args).1.code = 0 ∧
      (d.run .paragraph args).2.file? "script" = some (a.script .paragraph [0x3C, 0x70, 0x3E]) ∧
      (d.run .paragraph args).2.file? "page" = some [0x3C, 0x70, 0x3E] ∧
      d.run .paragraph args = d.run .paragraph ["-i", "page", "-o", "script"] := by
  intro d a args
  have hargs : Arguments.read args = .run a := by decide +kernel
  have hrun : Unhindered .paragraph d a (.file "page") (.file "script") [0x3C, 0x70, 0x3E] :=
    ⟨rfl, rfl, by rintro name h h'; cases h; simp at h', rfl, rfl⟩
  obtain ⟨-, hcode, -, -, hfile, -⟩ := (run_writes_script .paragraph d).1 args a _ _ _ hargs hrun
  obtain ⟨hscript, -, hothers⟩ := hfile "script" rfl
  refine ⟨hcode, hscript, hothers "page" (by decide), ?_⟩
  rcases (run_writes_script .paragraph d).2 args ["-i", "page", "-o", "script"] (by decide) with
    h | h | h
  · rw [h] at hcode
    cases hcode
  · have hother : (d.run .paragraph ["-i", "page", "-o", "script"]).1 ≠ .misuse := by
      decide +kernel
    rw [h] at hother
    exact absurd rfl hother
  · exact h

/-- An output that is given need not be a file, and the flags of logging can be a misuse. -/
theorem script_on_device :
    (¬∀ (d : Directory) (args : List String) (a : Arguments) (source : Source) (sink : Sink)
        (bytes : List UInt8), Arguments.read args = .run a →
          Unhindered .paragraph d a source sink bytes → a.output ≠ none →
            (d.run .paragraph args).2.stdout = d.stdout) ∧
      ¬∀ (d : Directory) (args others : List String),
        Argument.withoutLogging args = Argument.withoutLogging others →
          (d.run .paragraph args).1.code = (d.run .paragraph others).1.code := by
  constructor
  · intro h
    have hstdout := h { files := [], stdin := [.bytes [0x3C, 0x70, 0x3E]] } ["-o", "/dev/stdout"]
      { output := some "/dev/stdout" } .stdin .stdout [0x3C, 0x70, 0x3E] (by decide +kernel)
      ⟨rfl, rfl, by simp, rfl, rfl⟩ (by simp)
    revert hstdout
    decide +kernel
  · intro h
    have hcode := h { files := [], stdin := [.bytes [0x3C, 0x70, 0x3E]] } []
      ["--verbose", "--quiet"] (by decide)
    revert hcode
    decide +kernel

/-! ## Other runs -/

/-- Only accepted arguments lead to a failure. -/
theorem outcome_of_failure {failure : Failure} (h : (d.run parser args).1 = .failure failure) :
    ∃ a, Arguments.read args = .run a ∧
      Outcome parser d a (.failure failure) (d.run parser args).2 := by
  cases hargs : Arguments.read args with
  | run a => exact ⟨a, rfl, h ▸ run_outcome parser hargs d⟩
  | _ => rw [run_eq_answer, hargs] at h; cases h

/-- A run that fails before its output is there, or that is a misuse, changes nothing. -/
theorem run_failed (hcode : (d.run parser args).1.code ≠ 0)
    (hreading : ∀ failure, (d.run parser args).1 ≠ .failure (.reading failure))
    (hwriting : ∀ e, (d.run parser args).1 ≠ .failure (.writing e)) :
    (d.run parser args).2 = d := by
  cases hargs : Arguments.read args with
  | run a =>
    have hrun := run_outcome parser hargs d
    rcases hend : d.run parser args with ⟨exit, after⟩
    rw [hend] at hrun hcode hreading hwriting
    cases hrun with
    | unopened _ _ => rfl
    | uncreated _ _ _ => rfl
    | unread _ _ _ => exact absurd rfl (hreading _)
    | unwritten _ _ _ _ _ => exact absurd rfl (hwriting _)
    | written _ _ _ => exact absurd rfl hcode
  | misuse => rw [run_eq_answer, hargs]; rfl
  | version => rw [run_eq_answer, hargs] at hcode; exact absurd rfl hcode
  | help => rw [run_eq_answer, hargs] at hcode; exact absurd rfl hcode

/-- A terminal is not waited for. -/
example : ({ files := [], terminal := true } : Directory).run .paragraph [] =
    (.failure .noInput, { files := [], terminal := true }) := by
  decide +kernel

/-- When reading fails, the output is there and has got nothing. -/
theorem run_unread {failure : ReadFailure}
    (h : (d.run parser args).1 = .failure (.reading failure)) :
    ∃ a source sink, Arguments.read args = .run a ∧ d.openInput a.input = .ok source ∧
      (d.createOutput a.output).1 = .ok sink ∧
      ReadStep.collect ((d.createOutput a.output).2.read source) = .error failure ∧
      Received d sink [] (d.run parser args).2 := by
  obtain ⟨a, hargs, hrun⟩ := outcome_of_failure h
  generalize (d.run parser args).2 = after at hrun ⊢
  cases hrun with
  | unopened hearly _ => exact absurd hearly Bool.false_ne_true
  | uncreated hearly _ _ => exact absurd hearly Bool.false_ne_true
  | unread hinput houtput hread =>
    exact ⟨a, _, _, hargs, hinput, by rw [houtput], by rw [houtput]; exact hread,
      received_nothing houtput⟩

/-- When writing is refused, the output has got a beginning of the script. -/
theorem run_unwritten {e : SystemError} (h : (d.run parser args).1 = .failure (.writing e)) :
    ∃ a source sink bytes taken, Arguments.read args = .run a ∧
      d.openInput a.input = .ok source ∧ (d.createOutput a.output).1 = .ok sink ∧
      ReadStep.collect ((d.createOutput a.output).2.read source) = .ok bytes ∧
      taken <+: a.script parser bytes ∧ taken ≠ a.script parser bytes ∧
      Received d sink taken (d.run parser args).2 := by
  obtain ⟨a, hargs, hrun⟩ := outcome_of_failure h
  generalize (d.run parser args).2 = after at hrun ⊢
  cases hrun with
  | unopened hearly _ => exact absurd hearly Bool.false_ne_true
  | uncreated hearly _ _ => exact absurd hearly Bool.false_ne_true
  | unwritten hinput houtput hread htaken hpart =>
    exact ⟨a, _, _, _, _, hargs, hinput, by rw [houtput], by rw [houtput]; exact hread, htaken,
      hpart, received_extend houtput _⟩

section Onto

variable {name : String} {created : Directory}

/-- An output that is the input too is empty when it is read. -/
theorem collect_emptied (houtput : d.createOutput a.output = (.ok (.file name), created)) :
    ReadStep.collect (created.read (.file name)) =
      match (d.obstaclesAt name).reading with
      | none => .ok []
      | some (_, failure) => .error failure := by
  simp only [read, obstaclesAt_created houtput, file?_created houtput, if_pos]
  cases (d.obstaclesAt name).reading with
  | none => rfl
  | some obstacle => simp [ReadStep.collect, Except.map]

/-- **An input that is the output too** is read as an empty page, if the run succeeds. -/
theorem run_onto_input (hargs : Arguments.read args = .run a)
    (hinput : d.openInput a.input = .ok (.file name))
    (houtput : d.createOutput a.output = (.ok (.file name), created)) :
    (d.run parser args).1.code ≠ 0 ∨
      d.run parser args = (.success, created.extend (.file name) (a.script parser [])) := by
  have hread := collect_emptied houtput
  rw [run_created hargs hinput houtput]
  cases hreading : (d.obstaclesAt name).reading with
  | some obstacle =>
    rw [hreading] at hread
    rw [transfer_unread a hread]
    exact .inl Nat.one_ne_zero
  | none =>
    rw [hreading] at hread
    rw [transfer_read a hread]
    rcases created.write_cases (.file name) (a.script parser []) with hw | ⟨e, taken, hw, -⟩
    · rw [hw]
      exact .inr rfl
    · rw [hw]
      exact .inl Nat.one_ne_zero

/-- It does succeed if nothing stands in the way of reading the file and of writing the script of an
empty page. -/
theorem run_onto_input_accepted (hargs : Arguments.read args = .run a)
    (hinput : d.openInput a.input = .ok (.file name))
    (houtput : d.createOutput a.output = (.ok (.file name), created))
    (hreading : (d.obstaclesAt name).reading = none)
    (hroom : ∀ c ∈ (d.obstaclesAt name).capacity, (a.script parser []).length ≤ c.size) :
    (d.run parser args).1 = .success := by
  have hread := collect_emptied houtput
  rw [hreading] at hread
  have hheld : created.held (.file name) = [] := by
    rw [held, file?_created houtput, if_pos rfl, Option.getD_some]
  have hfits : created.write (.file name) (a.script parser []) =
      (.ok (), created.extend (.file name) (a.script parser [])) := by
    refine write_fits ?_
    rw [capacity, obstaclesAt_created houtput, hheld]
    exact hroom
  rw [run_created hargs hinput houtput, transfer_read a hread, hfits]

end Onto

/-- **What runs leave of the files.** A run that fails before its output is there leaves everything.
If reading fails, the output is left empty; if writing is refused, it is left with a part of the
script, and no other file is touched. A file that is input and output gets the script of an empty
page if the run succeeds, which it does unless reading or writing is refused. -/
theorem run_preserves (parser : PageParser) (d : Directory) (args : List String) :
    let exit := (d.run parser args).1
    let after := (d.run parser args).2
    (exit.code ≠ 0 → (∀ failure, exit ≠ .failure (.reading failure)) →
        (∀ e, exit ≠ .failure (.writing e)) → after = d) ∧
      (∀ failure, exit = .failure (.reading failure) →
        ∃ a source sink, Arguments.read args = .run a ∧ d.openInput a.input = .ok source ∧
          (d.createOutput a.output).1 = .ok sink ∧
          ReadStep.collect ((d.createOutput a.output).2.read source) = .error failure ∧
          Received d sink [] after) ∧
      (∀ e, exit = .failure (.writing e) →
        ∃ a source sink bytes taken, Arguments.read args = .run a ∧
          d.openInput a.input = .ok source ∧ (d.createOutput a.output).1 = .ok sink ∧
          ReadStep.collect ((d.createOutput a.output).2.read source) = .ok bytes ∧
          taken <+: a.script parser bytes ∧ taken ≠ a.script parser bytes ∧
          Received d sink taken after) ∧
      ∀ (a : Arguments) (name : String), Arguments.read args = .run a →
        d.openInput a.input = .ok (.file name) → (d.createOutput a.output).1 = .ok (.file name) →
          (exit.code = 0 → Received d (.file name) (a.script parser []) after) ∧
            ((d.obstaclesAt name).reading = none →
              (∀ c ∈ (d.obstaclesAt name).capacity, (a.script parser []).length ≤ c.size) →
                exit.code = 0) := by
  intro exit after
  refine ⟨run_failed, fun failure => run_unread, fun e => run_unwritten,
    fun a name hargs hinput houtput => ?_⟩
  rcases hcreated : d.createOutput a.output with ⟨result, created⟩
  rw [hcreated] at houtput
  obtain rfl : result = .ok (.file name) := houtput
  refine ⟨fun hcode => ?_, fun hreading hroom => ?_⟩
  · have hrun : d.run parser args =
        (.success, created.extend (.file name) (a.script parser [])) :=
      (run_onto_input hargs hinput hcreated).resolve_left (not_not_intro hcode)
    have hafter : after = created.extend (.file name) (a.script parser []) :=
      congrArg Prod.snd hrun
    rw [hafter]
    exact received_extend hcreated _
  · have hexit : exit = .success :=
      run_onto_input_accepted hargs hinput hcreated hreading hroom
    rw [hexit]
    rfl

/-- An input that is not there, one that is a directory, an output that has room for three bytes,
and a file that is input and output. -/
theorem run_preserves_specimen :
    let d : Directory :=
      { files := [("page", [0x3C, 0x70, 0x3E]), ("script", [0x21])],
        obstacles := [("script", { capacity := some ⟨3, .noSpace⟩ })] }
    (d.run .paragraph ["-i", "absent", "-o", "script"]).2 = d ∧
      Received d (.file "script") [] (d.run .paragraph ["-i", ".", "-o", "script"]).2 ∧
      (∃ taken, (d.run .paragraph ["-i", "page", "-o", "script"]).2.file? "script" = some taken ∧
        taken <+: Arguments.script .paragraph { input := some "page", output := some "script" }
          [0x3C, 0x70, 0x3E]) ∧
      Received d (.file "page")
        (Arguments.script .paragraph { input := some "page", output := some "page" } [])
        (d.run .paragraph ["-i", "page", "-o", "page"]).2 := by
  intro d
  refine ⟨?_, ?_, ?_, ?_⟩
  · have hend : (d.run .paragraph ["-i", "absent", "-o", "script"]).1 =
        .failure (.openInput "absent" .notFound) := by decide +kernel
    refine (run_preserves .paragraph d _).1 ?_ (fun failure h => ?_) fun e h => ?_
    · rw [hend]
      exact Nat.one_ne_zero
    · rw [hend] at h
      cases h
    · rw [hend] at h
      cases h
  · have hend : (d.run .paragraph ["-i", ".", "-o", "script"]).1 =
        .failure (.reading directoryFailure) := by decide +kernel
    obtain ⟨a, source, sink, hargs, -, houtput, -, hleft⟩ :=
      (run_preserves .paragraph d _).2.1 _ hend
    obtain rfl : { input := some ".", output := some "script" } = a :=
      Request.run.inj ((by decide +kernel :
        Arguments.read ["-i", ".", "-o", "script"] = .run _).symm.trans hargs)
    obtain rfl : .file "script" = sink := Except.ok.inj houtput
    exact hleft
  · have hend : (d.run .paragraph ["-i", "page", "-o", "script"]).1 =
        .failure (.writing .noSpace) := by decide +kernel
    obtain ⟨a, source, sink, bytes, taken, hargs, hinput, houtput, hread, htaken, -, hleft⟩ :=
      (run_preserves .paragraph d _).2.2.1 _ hend
    obtain rfl : { input := some "page", output := some "script" } = a :=
      Request.run.inj ((by decide +kernel :
        Arguments.read ["-i", "page", "-o", "script"] = .run _).symm.trans hargs)
    obtain rfl : .file "page" = source := Except.ok.inj hinput
    obtain rfl : .file "script" = sink := Except.ok.inj houtput
    obtain rfl : [0x3C, 0x70, 0x3E] = bytes := Except.ok.inj hread
    exact ⟨taken, by rw [hleft.files, if_pos rfl], htaken⟩
  · have hargs : Arguments.read ["-i", "page", "-o", "page"] =
        .run { input := some "page", output := some "page" } := by decide +kernel
    obtain ⟨hleft, hsuccess⟩ := (run_preserves .paragraph d _).2.2.2 _ "page" hargs rfl rfl
    exact hleft (hsuccess rfl (by rintro c ⟨⟩))

/-- A run can lose what a file held, by a read that fails and by a write that is refused, and an
input that is the output too is not converted. -/
theorem content_lost :
    (¬∀ (d : Directory) (args : List String), (d.run .paragraph args).1.code ≠ 0 →
        ∀ name, (d.run .paragraph args).2.file? name = d.file? name) ∧
      (¬∀ (d : Directory) (args : List String) (e : SystemError),
        (d.run .paragraph args).1 = .failure (.writing e) →
          ∀ name, (d.run .paragraph args).2.file? name = d.file? name) ∧
      ¬∀ (d : Directory) (args : List String) (a : Arguments) (name : String)
        (content : List UInt8), Arguments.read args = .run a →
          d.openInput a.input = .ok (.file name) →
            (d.createOutput a.output).1 = .ok (.file name) → d.file? name = some content →
              (d.run .paragraph args).1.code = 0 →
                (d.run .paragraph args).2.file? name = some (a.script .paragraph content) := by
  refine ⟨fun h => ?_, fun h => ?_, fun h => ?_⟩
  · have hlost := h { files := [("script", [0x21])] } ["-i", ".", "-o", "script"]
      (by decide +kernel) "script"
    revert hlost
    decide +kernel
  · have hlost := h
      { files := [("script", [0x21])], stdin := [.bytes [0x3C, 0x70, 0x3E]],
        obstacles := [("script", { capacity := some ⟨3, .noSpace⟩ })] }
      ["-o", "script"] .noSpace (by decide +kernel) "script"
    revert hlost
    decide +kernel
  · have hlost := h { files := [("page", [0x3C, 0x70, 0x3E])] } ["-i", "page", "-o", "page"]
      { input := some "page", output := some "page" } "page" [0x3C, 0x70, 0x3E]
      (by decide +kernel) rfl rfl rfl (by decide +kernel)
    revert hlost
    decide +kernel

end DomScript.CommandLine.Directory
