/-
DomScript.Proofs.CommandLine.Outcome — how a run ends, and what it leaves of the files.

A run takes its input, takes its output, reads, and writes, and each of these can be refused.
`Outcome` has one constructor for each of its ends, with everything that was done until then, and
later proofs never open a run again. Creating an output empties it before anything is read, so a
read that fails leaves an empty file, a write that is refused leaves a file with the beginning of
the script, and an input that is the output too is read as an empty page.

* `file?_put`, `createFile_cases`, `write_cases` — what the single effects do to the files;
* `Received` — the output got certain bytes, and nothing else changed;
* `run_eq_answer` — a run does what its arguments ask for, and nothing else of them counts;
* `run_unopened`, `run_uncreated`, `run_created`, `transfer_unread`, `transfer_read` — its steps;
* `run_outcome` — every accepted run has one of the outcomes.
-/
import DomScript.CommandLine.Directory
import DomScript.Proofs.Session.Delivery
import DomScript.Proofs.Session.Reading

namespace DomScript.CommandLine

/-- What is to be written for the bytes of a page: the buffer of a session that has read them and
nothing else. -/
def Arguments.script (parser : PageParser) (a : Arguments) (bytes : List UInt8) : List UInt8 :=
  ((Session.new a.options).parse parser [.bytes bytes]).2.pending

theorem Arguments.script_eq (parser : PageParser) (a : Arguments) (bytes : List UInt8) :
    a.script parser bytes =
      ((Session.new a.options).parseText parser (Session.pageText bytes)).2.pending := by
  rw [script, Session.parse_bytes]

/-- Whether a failure comes before the output is there. -/
def Failure.isEarly : Failure → Bool
  | .noInput | .openInput _ _ | .createOutput _ _ => true
  | .reading _ | .writing _ => false

namespace Directory

variable {d created after : Directory} {source : Source} {sink : Sink} {bytes : List UInt8}
  {path : Option String} {failure : Failure}

/-! ## Files -/

theorem lookup_cons_eq (files : List (String × List UInt8)) (name other : String)
    (content : List UInt8) :
    ((name, content) :: files).lookup other =
      if other = name then some content else files.lookup other := by
  by_cases h : other = name
  · simp [h]
  · rw [List.lookup_cons, beq_false_of_ne h, if_neg h]

/-- Giving an entry of a list new content, wherever it stands. -/
theorem lookup_replace (files : List (String × List UInt8)) (name other : String)
    (content : List UInt8) :
    (files.map fun f => if f.1 == name then (name, content) else f).lookup other =
      if other = name then (files.lookup other).map fun _ => content else files.lookup other := by
  induction files with
  | nil => simp
  | cons f files ih =>
    obtain ⟨file, old⟩ := f
    rw [List.map_cons, lookup_cons_eq]
    dsimp only
    by_cases hfile : file = name
    · subst hfile
      rw [beq_self_eq_true, if_pos rfl, lookup_cons_eq, ih]
      by_cases hother : other = file <;> simp [hother]
    · rw [beq_false_of_ne hfile, if_neg Bool.false_ne_true, lookup_cons_eq, ih]
      by_cases hother : other = file <;> simp [hother, hfile]

/-- **Giving a file new content** changes that file only. -/
theorem file?_put (d : Directory) (name : String) (content : List UInt8) (other : String) :
    (d.put name content).file? other = if other = name then some content else d.file? other := by
  rw [put]
  split
  · rename_i hthere
    show List.lookup other (d.files.map _) = _
    rw [lookup_replace]
    split
    · rename_i hother
      obtain ⟨old, hold⟩ := Option.isSome_iff_exists.mp hthere
      rw [hother, show d.files.lookup name = some old from hold, Option.map_some]
    · rfl
  · rename_i hnone
    have hnone : d.files.lookup name = none := Option.not_isSome_iff_eq_none.mp hnone
    show List.lookup other (d.files ++ [(name, content)]) = _
    rw [List.lookup_append]
    split
    · rename_i hother
      rw [hother, hnone]
      simp
    · rename_i hother
      rw [lookup_cons_eq, if_neg hother, List.lookup_nil, Option.or_none]
      rfl

@[simp] theorem stdout_put (d : Directory) (name : String) (content : List UInt8) :
    (d.put name content).stdout = d.stdout := by
  rw [put]
  split <;> rfl

@[simp] theorem stdin_put (d : Directory) (name : String) (content : List UInt8) :
    (d.put name content).stdin = d.stdin := by
  rw [put]
  split <;> rfl

@[simp] theorem obstaclesAt_put (d : Directory) (name : String) (content : List UInt8)
    (other : String) : (d.put name content).obstaclesAt other = d.obstaclesAt other := by
  rw [put]
  split <;> rfl

/-! ## Taking the input and the output -/

/-- Two actions in a row: the second one sees what the first one left. -/
theorem run_bind {α β : Type} (action : StateM Directory α) (next : α → StateM Directory β)
    (d : Directory) : (action >>= next).run d = (next (action.run d).1).run (action.run d).2 := rfl

/-- What taking the input gives. -/
def openInput (d : Directory) (path : Option String) : Except Failure Source :=
  ((takeInput host path).run d).1

/-- What taking the output gives, and the directory after it. -/
def createOutput (d : Directory) (path : Option String) : Except Failure Sink × Directory :=
  (takeOutput host path).run d

theorem run_takeInput_none (d : Directory) :
    (takeInput host none).run d = (if d.terminal then .error .noInput else .ok .stdin, d) := by
  have hterminal : host.stdinIsTerminal.run d = (d.terminal, d) := rfl
  rw [takeInput, run_bind, hterminal]
  cases d.terminal <;> rfl

/-- Without a path, what is piped in is the input. -/
theorem openInput_none (d : Directory) :
    d.openInput none = if d.terminal then .error .noInput else .ok .stdin :=
  congrArg Prod.fst d.run_takeInput_none

theorem openInput_some (d : Directory) (path : String) :
    d.openInput (some path) = (d.openFile path).mapError (.openInput path) := rfl

/-- Taking the input leaves the directory as it is. -/
theorem run_takeInput (d : Directory) (path : Option String) :
    (takeInput host path).run d = (d.openInput path, d) := by
  cases path with
  | some path => rfl
  | none => rw [openInput_none, run_takeInput_none]

theorem isEarly_of_openInput (h : d.openInput path = .error failure) : failure.isEarly := by
  cases path with
  | none =>
    rw [openInput_none] at h
    split at h <;> cases h
    rfl
  | some path =>
    rw [openInput_some] at h
    cases hopen : d.openFile path with
    | error e => rw [hopen] at h; cases h; rfl
    | ok source => rw [hopen] at h; cases h

theorem createOutput_some (d : Directory) (path : String) :
    d.createOutput (some path) =
      ((d.createFile path).1.mapError (.createOutput path), (d.createFile path).2) := rfl

theorem makeEmpty_cases (d : Directory) (name : String) :
    (∃ e, d.makeEmpty name = (.error e, d)) ∨
      d.makeEmpty name = (.ok (.file name), d.put name []) := by
  rw [makeEmpty]
  cases (d.obstaclesAt name).creating with
  | some e => exact .inl ⟨e, rfl⟩
  | none => exact .inr rfl

/-- **Creating a file** empties it, or changes nothing. -/
theorem createFile_cases (d : Directory) (path : String) :
    (∃ e, d.createFile path = (.error e, d)) ∨
      (∃ name, d.createFile path = (.ok (.file name), d.put name [])) ∨
      ∃ sink, (∀ name, sink ≠ .file name) ∧ d.createFile path = (.ok sink, d) := by
  simp only [createFile]
  cases d.follow path with
  | error e => exact .inl ⟨e, rfl⟩
  | ok target =>
    dsimp only
    split
    · exact .inl ⟨.isDirectory, rfl⟩
    · cases target with
      | file name => exact (d.makeEmpty_cases name).imp_right fun h => .inl ⟨name, h⟩
      | vacant name => exact (d.makeEmpty_cases name).imp_right fun h => .inl ⟨name, h⟩
      | device device => cases device <;> exact .inr (.inr ⟨_, by simp, rfl⟩)
      | overlong => exact .inl ⟨.nameTooLong, rfl⟩
      | _ => exact .inr (.inr ⟨.discard, by simp, rfl⟩)

/-- **Taking an output** empties a file, or changes nothing. -/
theorem createOutput_cases (d : Directory) (path : Option String) :
    (∃ failure : Failure, failure.isEarly ∧ d.createOutput path = (.error failure, d)) ∨
      (∃ name, d.createOutput path = (.ok (.file name), d.put name [])) ∨
      ∃ sink, (∀ name, sink ≠ .file name) ∧ d.createOutput path = (.ok sink, d) := by
  cases path with
  | none => exact .inr (.inr ⟨.stdout, by simp, rfl⟩)
  | some path =>
    rcases d.createFile_cases path with ⟨e, hc⟩ | ⟨name, hc⟩ | ⟨sink, hsink, hc⟩
    · exact .inl ⟨.createOutput path e, rfl, by rw [createOutput_some, hc]; rfl⟩
    · exact .inr (.inl ⟨name, by rw [createOutput_some, hc]; rfl⟩)
    · exact .inr (.inr ⟨sink, hsink, by rw [createOutput_some, hc]; rfl⟩)

/-- An output that cannot be taken changes nothing. -/
theorem createOutput_error (h : d.createOutput path = (.error failure, created)) :
    failure.isEarly ∧ created = d := by
  rcases d.createOutput_cases path with ⟨f, hearly, hc⟩ | ⟨name, hc⟩ | ⟨sink, -, hc⟩
  · rw [hc] at h; cases h; exact ⟨hearly, rfl⟩
  · rw [hc] at h; cases h
  · rw [hc] at h; cases h

theorem createOutput_ok (h : d.createOutput path = (.ok sink, created)) :
    (∃ name, sink = .file name ∧ created = d.put name []) ∨
      (∀ name, sink ≠ .file name) ∧ created = d := by
  rcases d.createOutput_cases path with ⟨f, -, hc⟩ | ⟨name, hc⟩ | ⟨other, hother, hc⟩
  · rw [hc] at h; cases h
  · rw [hc] at h; cases h; exact .inl ⟨name, rfl, rfl⟩
  · rw [hc] at h; cases h; exact .inr ⟨hother, rfl⟩

/-- Taking an output that is no file changes nothing. -/
theorem created_eq (h : d.createOutput path = (.ok sink, created))
    (hsink : ∀ name, sink ≠ .file name) : created = d := by
  rcases createOutput_ok h with ⟨name, hname, -⟩ | ⟨-, heq⟩
  · exact absurd hname (hsink name)
  · exact heq

/-- The files after an output was taken. -/
theorem file?_created (h : d.createOutput path = (.ok sink, created)) (name : String) :
    created.file? name = if sink = .file name then some [] else d.file? name := by
  rcases createOutput_ok h with ⟨output, rfl, rfl⟩ | ⟨hsink, rfl⟩
  · simp only [file?_put, Sink.file.injEq, eq_comm]
  · rw [if_neg (hsink name)]

/-- Whatever emptying a file keeps, taking an output keeps. -/
theorem created_keeps {α : Type} {f : Directory → α} (hput : ∀ name, f (d.put name []) = f d)
    (h : d.createOutput path = (.ok sink, created)) : f created = f d := by
  rcases createOutput_ok h with ⟨name, -, rfl⟩ | ⟨-, rfl⟩
  · exact hput name
  · rfl

theorem stdout_created (h : d.createOutput path = (.ok sink, created)) :
    created.stdout = d.stdout :=
  created_keeps (fun name => d.stdout_put name []) h

theorem obstaclesAt_created (h : d.createOutput path = (.ok sink, created)) (name : String) :
    created.obstaclesAt name = d.obstaclesAt name :=
  created_keeps (f := (·.obstaclesAt name)) (fun output => d.obstaclesAt_put output [] name) h

/-! ## Reading and writing -/

/-- An input that is not the output is read as it was. -/
theorem read_created (h : d.createOutput path = (.ok sink, created))
    (hapart : ∀ name, source = .file name → sink ≠ .file name) :
    created.read source = d.read source := by
  cases source with
  | file name => simp only [read, file?_created h, obstaclesAt_created h, if_neg (hapart name rfl)]
  | stdin => exact created_keeps (fun name => d.stdin_put name []) h
  | directory => rfl
  | empty => rfl

theorem file?_extend (d : Directory) (sink : Sink) (bytes : List UInt8) (name : String) :
    (d.extend sink bytes).file? name =
      if sink = .file name then some ((d.file? name).getD [] ++ bytes) else d.file? name := by
  cases sink with
  | file output =>
    rw [extend, file?_put]
    by_cases h : name = output
    · subst h
      rw [if_pos rfl, if_pos rfl, held]
    · rw [if_neg h, if_neg (by simpa using Ne.symm h)]
  | stdout => rw [if_neg (by simp)]; rfl
  | discard => rw [if_neg (by simp)]; rfl
  | full => rw [if_neg (by simp)]; rfl

theorem stdout_extend (d : Directory) (sink : Sink) (bytes : List UInt8) :
    (d.extend sink bytes).stdout = if sink = .stdout then d.stdout ++ bytes else d.stdout := by
  cases sink with
  | file output => rw [extend, stdout_put, if_neg (by simp)]
  | stdout => rfl
  | discard => rfl
  | full => rfl

/-- What an output has room for is written. -/
theorem write_fits (h : ∀ c ∈ d.capacity sink, bytes.length ≤ c.size - (d.held sink).length) :
    d.write sink bytes = (.ok (), d.extend sink bytes) := by
  rw [write]
  cases hc : d.capacity sink with
  | none => rfl
  | some c => simp only [Drain.writeAll, if_pos (h c hc)]

/-- **Writing** puts all bytes behind what the output holds, or is refused in between. -/
theorem write_cases (d : Directory) (sink : Sink) (bytes : List UInt8) :
    d.write sink bytes = (.ok (), d.extend sink bytes) ∨
      ∃ e taken, d.write sink bytes = (.error e, d.extend sink taken) ∧
        taken <+: bytes ∧ taken ≠ bytes := by
  cases hc : d.capacity sink with
  | none => exact .inl (write_fits (by simp [hc]))
  | some c =>
    by_cases hroom : bytes.length ≤ c.size - (d.held sink).length
    · exact .inl (write_fits (by simpa [hc] using hroom))
    · refine .inr ⟨c.refusal, bytes.take (c.size - (d.held sink).length), ?_, List.take_prefix _ _,
        fun hall => hroom ?_⟩
      · rw [write, hc]
        simp only [Drain.writeAll, if_neg hroom]
      · rw [← hall, List.length_take]
        exact Nat.min_le_left _ _

/-- The output has got `bytes` since it was taken, and nothing else has changed. A file holds
nothing but them. -/
structure Received (d : Directory) (sink : Sink) (bytes : List UInt8) (after : Directory) :
    Prop where
  files : ∀ name, after.file? name = if sink = .file name then some bytes else d.file? name
  stdout : after.stdout = if sink = .stdout then d.stdout ++ bytes else d.stdout

theorem received_nothing (h : d.createOutput path = (.ok sink, created)) :
    Received d sink [] created :=
  ⟨file?_created h, by rw [stdout_created h, List.append_nil, ite_self]⟩

theorem received_extend (h : d.createOutput path = (.ok sink, created)) (bytes : List UInt8) :
    Received d sink bytes (created.extend sink bytes) := by
  refine ⟨fun name => ?_, by rw [stdout_extend, stdout_created h]⟩
  rw [file?_extend, file?_created h]
  split <;> rfl

/-! ## Runs -/

variable {parser : PageParser}

/-- What a request does in a directory. -/
def answer (parser : PageParser) (d : Directory) : Request → Exit × Directory
  | .run a => (runWith parser host a).run d
  | .version => (.success, (host.print versionText).run d |>.2)
  | .help => (.success, (host.print d.helpPage).run d |>.2)
  | .misuse => (.misuse, d)

/-- A run is the answer to what its arguments ask for. -/
theorem run_eq_answer (parser : PageParser) (d : Directory) (args : List String) :
    d.run parser args = d.answer parser (Arguments.read args) := by
  rw [Directory.run, CommandLine.run]
  cases Arguments.read args <;> rfl

variable {args : List String} {a : Arguments}

theorem run_unopened (hargs : Arguments.read args = .run a)
    (hinput : d.openInput a.input = .error failure) :
    d.run parser args = (.failure failure, d) := by
  rw [run_eq_answer, hargs, answer, runWith, run_bind, run_takeInput, hinput]
  rfl

theorem run_uncreated (hargs : Arguments.read args = .run a)
    (hinput : d.openInput a.input = .ok source)
    (houtput : d.createOutput a.output = (.error failure, created)) :
    d.run parser args = (.failure failure, created) := by
  rw [createOutput] at houtput
  rw [run_eq_answer, hargs, answer, runWith, run_bind, run_takeInput, hinput]
  dsimp only
  rw [run_bind, houtput]
  rfl

theorem run_created (hargs : Arguments.read args = .run a)
    (hinput : d.openInput a.input = .ok source)
    (houtput : d.createOutput a.output = (.ok sink, created)) :
    d.run parser args = (transfer parser host a.options source sink).run created := by
  rw [createOutput] at houtput
  rw [run_eq_answer, hargs, answer, runWith, run_bind, run_takeInput, hinput]
  dsimp only
  rw [run_bind, houtput]

theorem transfer_unread (a : Arguments) {failure : ReadFailure}
    (hread : ReadStep.collect (created.read source) = .error failure) :
    (transfer parser host a.options source sink).run created =
      (.failure (.reading failure), created) := by
  have hhost : (host.read source).run created = (created.read source, created) := rfl
  have hparse : (Session.new a.options).parse parser (created.read source) =
      (.error failure, Session.new a.options) := by
    simp only [Session.parse, hread]
  rw [transfer, run_bind, hhost]
  dsimp only
  rw [hparse]
  rfl

theorem transfer_read (a : Arguments)
    (hread : ReadStep.collect (created.read source) = .ok bytes) :
    (transfer parser host a.options source sink).run created =
      (match (created.write sink (a.script parser bytes)).1 with
        | .error e => .failure (.writing e)
        | .ok () => .success,
        (created.write sink (a.script parser bytes)).2) := by
  have hhost : (host.read source).run created = (created.read source, created) := rfl
  have hwrite : ∀ content, (host.write sink content).run created = created.write sink content :=
    fun content => rfl
  rw [transfer, run_bind, hhost]
  dsimp only
  rw [Session.parse_of_collect parser hread, Session.parse_bytes]
  dsimp only
  rw [Session.drain_all, run_bind, hwrite, ← Arguments.script_eq]
  cases (created.write sink (a.script parser bytes)).1 <;> rfl

/-- The ends of a run with accepted arguments, and what has been done then: the input or the output
cannot be taken, reading fails, writing is refused in between, or everything is written. -/
inductive Outcome (parser : PageParser) (d : Directory) (a : Arguments) : Exit → Directory → Prop
  | unopened {failure : Failure} (hearly : failure.isEarly)
      (hinput : d.openInput a.input = .error failure) : Outcome parser d a (.failure failure) d
  | uncreated {source : Source} {failure : Failure} (hearly : failure.isEarly)
      (hinput : d.openInput a.input = .ok source)
      (houtput : d.createOutput a.output = (.error failure, d)) :
      Outcome parser d a (.failure failure) d
  | unread {source : Source} {sink : Sink} {created : Directory} {failure : ReadFailure}
      (hinput : d.openInput a.input = .ok source)
      (houtput : d.createOutput a.output = (.ok sink, created))
      (hread : ReadStep.collect (created.read source) = .error failure) :
      Outcome parser d a (.failure (.reading failure)) created
  | unwritten {source : Source} {sink : Sink} {created : Directory} {bytes taken : List UInt8}
      {e : SystemError} (hinput : d.openInput a.input = .ok source)
      (houtput : d.createOutput a.output = (.ok sink, created))
      (hread : ReadStep.collect (created.read source) = .ok bytes)
      (htaken : taken <+: a.script parser bytes) (hpart : taken ≠ a.script parser bytes) :
      Outcome parser d a (.failure (.writing e)) (created.extend sink taken)
  | written {source : Source} {sink : Sink} {created : Directory} {bytes : List UInt8}
      (hinput : d.openInput a.input = .ok source)
      (houtput : d.createOutput a.output = (.ok sink, created))
      (hread : ReadStep.collect (created.read source) = .ok bytes) :
      Outcome parser d a .success (created.extend sink (a.script parser bytes))

/-- **Every accepted run has one of the outcomes.** -/
theorem run_outcome (parser : PageParser) (hargs : Arguments.read args = .run a) (d : Directory) :
    Outcome parser d a (d.run parser args).1 (d.run parser args).2 := by
  cases hinput : d.openInput a.input with
  | error failure =>
    rw [run_unopened hargs hinput]
    exact .unopened (isEarly_of_openInput hinput) hinput
  | ok source =>
    rcases houtput : d.createOutput a.output with ⟨result, created⟩
    cases result with
    | error failure =>
      obtain ⟨hearly, rfl⟩ := createOutput_error houtput
      rw [run_uncreated hargs hinput houtput]
      exact .uncreated hearly hinput houtput
    | ok sink =>
      rw [run_created hargs hinput houtput]
      cases hread : ReadStep.collect (created.read source) with
      | error failure =>
        rw [transfer_unread a hread]
        exact .unread hinput houtput hread
      | ok bytes =>
        rw [transfer_read a hread]
        rcases created.write_cases sink (a.script parser bytes) with hw | ⟨e, taken, hw, ht, hpart⟩
        · rw [hw]
          exact .written hinput houtput hread
        · rw [hw]
          exact .unwritten hinput houtput hread ht hpart

end Directory

end DomScript.CommandLine
