/-
DomScript.CommandLine.Run — one run of the command line.

A run opens its input, creates its output, reads, converts and writes, in this order, and stops at
the first failure. Without a path for the input a terminal is refused, since nobody would know that
a page is waited for. What the run needs of the system around it is a `Host`, so the same definition
runs on real files and on the small directory of `DomScript.CommandLine.Directory`; the parser of
pages is a parameter.
-/
import DomScript.CommandLine.Arguments
import DomScript.Session

namespace DomScript.CommandLine

/-! ## The system around a run -/

/-- Why the system refused an operation. -/
inductive SystemError where
  | notFound
  | permissionDenied
  | alreadyExists
  | notDirectory
  | isDirectory
  | noSpace
  | nameTooLong
  | other (code : Nat) (text : String)
  deriving DecidableEq

namespace SystemError

/-- The number of an error. -/
def code : SystemError → Nat
  | notFound => 2
  | permissionDenied => 13
  | alreadyExists => 17
  | notDirectory => 20
  | isDirectory => 21
  | noSpace => 28
  | nameTooLong => 36
  | other code _ => code

/-- The words for an error. -/
def words : SystemError → String
  | notFound => "No such file or directory"
  | permissionDenied => "Permission denied"
  | alreadyExists => "File exists"
  | notDirectory => "Not a directory"
  | isDirectory => "Is a directory"
  | noSpace => "No space left on device"
  | nameTooLong => "File name too long"
  | other _ text => text

/-- How an error is written in a message. -/
def message (e : SystemError) : String :=
  e.words ++ " (os error " ++ toString e.code ++ ")"

end SystemError

/-- What a run needs of the system. -/
structure Host (m : Type → Type) (Source Sink : Type) where
  openFile : String → m (Except SystemError Source)
  /-- Create a file, or empty the one that is there. -/
  createFile : String → m (Except SystemError Sink)
  stdin : m Source
  /-- Whether the standard input is a terminal. -/
  stdinIsTerminal : m Bool
  stdout : m Sink
  read : Source → m (List ReadStep)
  write : Sink → List UInt8 → m (Except SystemError Unit)
  /-- Print to the standard output, as far as it takes the text. -/
  print : String → m Unit
  /-- The page that explains the options. Its wording is no matter of a run. -/
  helpPage : m String

/-! ## Failures and results -/

/-- Why a run failed. -/
inductive Failure where
  | noInput
  | openInput (path : String) (e : SystemError)
  | createOutput (path : String) (e : SystemError)
  | reading (failure : ReadFailure)
  | writing (e : SystemError)
  deriving DecidableEq

/-- The message of a failure: what failed, and why. -/
def Failure.message : Failure → String
  | .noInput => "htmltojs error: no input: pass --input <FILE> or pipe HTML on stdin"
  | .openInput path e => "htmltojs error: failed to open " ++ path ++ ": " ++ e.message
  | .createOutput path e => "htmltojs error: failed to create " ++ path ++ ": " ++ e.message
  | .reading failure => "htmltojs error: " ++ failure.report ++ ": " ++ failure.message
  | .writing e => "htmltojs error: failed to write output: " ++ e.message

/-- How a run ended. -/
inductive Exit where
  | success
  | failure (f : Failure)
  | misuse
  deriving DecidableEq

namespace Exit

/-- The exit status. -/
def code : Exit → Nat
  | success => 0
  | failure _ => 1
  | misuse => 2

end Exit

/-- What is printed as the version. -/
def versionText : String :=
  "htmltojs 0.1.0\n"

/-! ## Running -/

variable {m : Type → Type} [Monad m] {Source Sink : Type}

/-- Take the input: the file at a path, or what is piped in. -/
def takeInput (host : Host m Source Sink) : Option String → m (Except Failure Source)
  | some path => return (← host.openFile path).mapError (.openInput path)
  | none => do
    if ← host.stdinIsTerminal then return .error .noInput
    return .ok (← host.stdin)

/-- Take the output: the file at a path, which is empty then, or the standard output. -/
def takeOutput (host : Host m Source Sink) : Option String → m (Except Failure Sink)
  | some path => return (← host.createFile path).mapError (.createOutput path)
  | none => return .ok (← host.stdout)

/-- Convert what a source gives, and write it to a sink. -/
def transfer (parser : PageParser) (host : Host m Source Sink) (o : Options) (source : Source)
    (sink : Sink) : m Exit := do
  let reads ← host.read source
  match (Session.new o).parse parser reads with
  | (.error failure, _) => return .failure (.reading failure)
  | (.ok _, session) =>
    match ← host.write sink (session.drain none).1.sink with
    | .error e => return .failure (.writing e)
    | .ok () => return .success

/-- Run with accepted arguments. -/
def runWith (parser : PageParser) (host : Host m Source Sink) (a : Arguments) : m Exit := do
  match ← takeInput host a.input with
  | .error failure => return .failure failure
  | .ok source =>
    match ← takeOutput host a.output with
    | .error failure => return .failure failure
    | .ok sink => transfer parser host a.options source sink

/-- Run with any arguments. -/
def run (parser : PageParser) (host : Host m Source Sink) (args : List String) : m Exit :=
  match Arguments.read args with
  | .misuse => return .misuse
  | .version => do
    host.print versionText
    return .success
  | .help => do
    host.print (← host.helpPage)
    return .success
  | .run a => runWith parser host a

end DomScript.CommandLine
