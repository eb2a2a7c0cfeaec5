/-
DomScript.Main — the command line on real files.

The system of `DomScript.CommandLine.Run` is the one that the process runs in, and pages are parsed
by `DomScript.Html.tree`. A failed run says why on the standard error stream.
-/
import DomScript.CommandLine.Run
import DomScript.Html.Page

namespace DomScript.Main

open DomScript.CommandLine

/-- The cause of an error that the system reported. -/
def systemError (e : IO.Error) : SystemError :=
  match e with
  | .noFileOrDirectory _ _ _ => .notFound
  | .permissionDenied _ 13 _ => .permissionDenied
  | .alreadyExists _ 17 _ => .alreadyExists
  | .inappropriateType _ 20 _ => .notDirectory
  | .inappropriateType _ 21 _ => .isDirectory
  | .resourceExhausted _ 28 _ => .noSpace
  | .invalidArgument _ 36 _ => .nameTooLong
  | e => .other 5 (toString e)

/-- Try an action, and answer with the cause if it fails. -/
def attempt {α : Type} (action : IO α) : IO (Except SystemError α) := do
  try
    return .ok (← action)
  catch e =>
    return .error (systemError e)

/-- Open a file. -/
def openStream (path : String) (mode : IO.FS.Mode) : IO (Except SystemError IO.FS.Stream) :=
  attempt do return .ofHandle (← IO.FS.Handle.mk path mode)

/-- The size of one read, in bytes. -/
def chunkSize : USize := 65536

/-- Read a stream to its end. -/
partial def readAll (source : IO.FS.Stream) (found : Array ReadStep) : IO (List ReadStep) := do
  match ← attempt (source.read chunkSize) with
  | .error e => return (found.push (.failed ⟨e.words, e.message⟩)).toList
  | .ok chunk =>
    if chunk.isEmpty then return found.toList
    else readAll source (found.push (.bytes chunk.toList))

/-- Write text to a stream and hand it on at once. -/
def say (stream : IO.FS.Stream) (text : String) : IO Unit := do
  stream.putStr text
  stream.flush

/-- A summary of the options, for the help page and for misuse. The words are only this program's. -/
def usage : String :=
  "Usage: htmltojs [-i FILE] [-o FILE] [-p TARGET] [--prefix TEXT] [--include TAGS] " ++
    "[--exclude TAGS] [--ignore TAGS] [--keep-root-text] [--verbose | --quiet]\n"

/-- The system that the process runs in. -/
def host : Host IO IO.FS.Stream IO.FS.Stream where
  openFile path := openStream path .read
  createFile path := openStream path .write
  stdin := IO.getStdin
  stdinIsTerminal := do (← IO.getStdin).isTty
  stdout := IO.getStdout
  read source := readAll source #[]
  write sink bytes := attempt do
    sink.write ⟨bytes.toArray⟩
    sink.flush
  print text := do
    let _ ← attempt (say (← IO.getStdout) text)
  helpPage := return usage

end DomScript.Main

/-- Run with the arguments of the process, and answer the exit status. -/
def main (args : List String) : IO UInt32 := do
  let exit ← DomScript.CommandLine.run DomScript.Html.tree DomScript.Main.host args
  match exit with
  | .success => pure ()
  | .failure f => IO.eprintln f.message
  | .misuse => IO.eprint DomScript.Main.usage
  return exit.code.toUInt32
