/-
DomScript.CommandLine.Directory — a small system to run in.

A directory without subdirectories, the standard streams, and the devices. Files are opened by path
and hold what was last written to them, so an input that is also the output is read as it is after
the output was created. Creating a file empties it.

Whatever a run asks for can be refused. A file can have obstacles: it may not be opened or created,
reading it may fail on the way, and it may have room for a part only of what is written. The
standard input can fail as well, and the standard output can be short of room.
-/
import DomScript.CommandLine.Path

namespace DomScript.CommandLine

/-! ## Obstacles -/

/-- How many bytes an output can hold, and why it refuses more. -/
structure Capacity where
  size : Nat
  refusal : SystemError
  deriving DecidableEq

/-- What stands in the way of using a file. -/
structure Obstacles where
  /-- Why it cannot be opened. -/
  opening : Option SystemError := none
  /-- Why it cannot be created or emptied. -/
  creating : Option SystemError := none
  /-- Behind how many bytes reading it fails, and why. -/
  reading : Option (Nat × ReadFailure) := none
  capacity : Option Capacity := none
  deriving DecidableEq

/-- A directory with the standard streams of a run. -/
structure Directory where
  files : List (String × List UInt8)
  /-- What reading the standard input gives. -/
  stdin : List ReadStep := []
  /-- Whether the standard input is a terminal. -/
  terminal : Bool := false
  stdout : List UInt8 := []
  stdoutCapacity : Option Capacity := none
  /-- The obstacles at files, and at names where there is no file yet. -/
  obstacles : List (String × Obstacles) := []
  helpPage : String := ""
  deriving DecidableEq

namespace Directory

/-! ## Files -/

/-- The content of a file. -/
def file? (d : Directory) (name : String) : Option (List UInt8) :=
  d.files.lookup name

/-- What a path leads to. -/
def follow (d : Directory) (path : String) : Except SystemError Target :=
  Path.follow (fun name => (d.file? name).isSome) path

/-- What stands in the way at a name. -/
def obstaclesAt (d : Directory) (name : String) : Obstacles :=
  (d.obstacles.lookup name).getD {}

/-! ## Sources and sinks -/

/-- An open input. -/
inductive Source where
  | stdin
  | file (name : String)
  | directory
  | empty
  deriving DecidableEq

/-- An open output. -/
inductive Sink where
  | stdout
  | file (name : String)
  | discard
  | full
  deriving DecidableEq

/-- Open a file. A directory can be opened, though not read. -/
def openFile (d : Directory) (path : String) : Except SystemError Source :=
  let ready (obstacle : Option SystemError) (source : Source) : Except SystemError Source :=
    if Path.asksDirectory path then .error .notDirectory
    else
      match obstacle with
      | some e => .error e
      | none => .ok source
  match d.follow path with
  | .error e => .error e
  | .ok (.file name) => ready (d.obstaclesAt name).opening (.file name)
  | .ok (.device .stdin) => ready none .stdin
  | .ok (.device _) => ready none .empty
  | .ok (.vacant _) | .ok .vacantElsewhere => .error .notFound
  | .ok .overlong => .error .nameTooLong
  | .ok _ => .ok .directory

/-- Give a file new content; a file that is not there is made. -/
def put (d : Directory) (name : String) (content : List UInt8) : Directory :=
  if (d.file? name).isSome then
    { d with files := d.files.map fun f => if f.1 == name then (name, content) else f }
  else { d with files := d.files ++ [(name, content)] }

/-- Make a file of the directory, or empty the one that is there. -/
def makeEmpty (d : Directory) (name : String) : Except SystemError Sink × Directory :=
  match (d.obstaclesAt name).creating with
  | some e => (.error e, d)
  | none => (.ok (.file name), d.put name [])

/-- Create a file, which is empty then. What is made in other directories is written to and not seen
again. -/
def createFile (d : Directory) (path : String) : Except SystemError Sink × Directory :=
  match d.follow path with
  | .error e => (.error e, d)
  | .ok target =>
    if target.isDirectory || Path.asksDirectory path then (.error .isDirectory, d)
    else
      match target with
      | .file name | .vacant name => d.makeEmpty name
      | .device .stdout => (.ok .stdout, d)
      | .device .full => (.ok .full, d)
      | .overlong => (.error .nameTooLong, d)
      | _ => (.ok .discard, d)

/-! ## Reading -/

/-- The failure of reading a directory. -/
def directoryFailure : ReadFailure :=
  ⟨"IsADirectory", SystemError.isDirectory.message⟩

/-- Read an input to its end, or until it fails. -/
def read (d : Directory) : Source → List ReadStep
  | .stdin => d.stdin
  | .file name =>
    let content := (d.file? name).getD []
    match (d.obstaclesAt name).reading with
    | none => [.bytes content]
    | some (size, failure) => [.bytes (content.take size), .failed failure]
  | .directory => [.failed directoryFailure]
  | .empty => []

/-! ## Writing -/

/-- What limits an output. The device that is full refuses the first byte. -/
def capacity (d : Directory) : Sink → Option Capacity
  | .stdout => d.stdoutCapacity
  | .file name => (d.obstaclesAt name).capacity
  | .discard => none
  | .full => some ⟨0, .noSpace⟩

/-- What an output holds. -/
def held (d : Directory) : Sink → List UInt8
  | .stdout => d.stdout
  | .file name => (d.file? name).getD []
  | .discard | .full => []

/-- Put bytes behind what an output holds. -/
def extend (d : Directory) (sink : Sink) (bytes : List UInt8) : Directory :=
  match sink with
  | .stdout => { d with stdout := d.held sink ++ bytes }
  | .file name => d.put name (d.held sink ++ bytes)
  | .discard | .full => d

/-- Write to an output. It takes the bytes that it has room for, and refuses the others. -/
def write (d : Directory) (sink : Sink) (bytes : List UInt8) :
    Except SystemError Unit × Directory :=
  match d.capacity sink with
  | none => (.ok (), d.extend sink bytes)
  | some c =>
    match Drain.writeAll (some (c.size - (d.held sink).length)) bytes with
    | .complete taken => (.ok (), d.extend sink taken)
    | .short taken => (.error c.refusal, d.extend sink taken)

/-! ## Running -/

/-- The directory as the system of a run. -/
def host : Host (StateM Directory) Source Sink where
  openFile path := return (← get).openFile path
  createFile path := modifyGet (·.createFile path)
  stdin := return .stdin
  stdinIsTerminal := return (← get).terminal
  stdout := return .stdout
  read source := return (← get).read source
  write sink bytes := modifyGet (·.write sink bytes)
  print text := modify fun d => (d.write .stdout (Text.Utf8.encode text.toList)).2
  helpPage := return (← get).helpPage

/-- Run in a directory: how the run ended, and the directory after it. -/
def run (parser : PageParser) (d : Directory) (args : List String) : Exit × Directory :=
  (CommandLine.run parser host args).run d

end Directory

end DomScript.CommandLine
