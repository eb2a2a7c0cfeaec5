/-
DomScript.Session — conversions that share a buffer and a sequence of names.

Each conversion appends its script to the buffer and goes on with the names, until a reset empties
the buffer and starts the names again. A page may come as a document, as a text, or in pieces from a
reader; if reading fails, nothing changes. `Session.run` carries out a list of commands. How the
text of a page is parsed is not the session's business: the parser is a parameter of all that reads
texts.
-/
import DomScript.Conversion
import DomScript.Document.Copy
import DomScript.Output

namespace DomScript

/-! ## Reading in pieces -/

/-- Why a reader gave up. -/
structure ReadFailure where
  kind : String
  message : String
  deriving DecidableEq

namespace ReadFailure

/-- What is said of a page that could not be read. -/
def report (f : ReadFailure) : String :=
  "Parse error: " ++ f.message

end ReadFailure

/-- One answer of a reader. An interrupted read is simply tried again. -/
inductive ReadStep where
  | bytes (chunk : List UInt8)
  | interrupted
  | failed (failure : ReadFailure)
  deriving DecidableEq

/-- All bytes of a reader, or its first failure. -/
def ReadStep.collect : List ReadStep → Except ReadFailure (List UInt8)
  | [] => .ok []
  | .bytes chunk :: steps => (collect steps).map (chunk ++ ·)
  | .interrupted :: steps => collect steps
  | .failed failure :: _ => .error failure

/-! ## Sessions -/

/-- The options in force, the names given out, and the script so far. -/
structure Session where
  options : Options
  names : VariableNames
  output : Output
  deriving DecidableEq

namespace Session

/-- A session that has done nothing. -/
def new (options : Options) : Session :=
  ⟨options, .new options.stem, .empty⟩

/-- Convert a document behind the script so far. -/
def convert (s : Session) (d : Document) : Conversion × Session :=
  let c := d.convert s.options s.names
  (c, { s with names := c.names, output := s.output.write c.script })

/-- Convert the page of a text. -/
def parseText (parser : PageParser) (s : Session) (html : String) : Conversion × Session :=
  s.convert (.ofPage parser html)

/-- The text of the bytes of a page. -/
def pageText (bytes : List UInt8) : String :=
  .ofList (Text.Utf8.decode bytes)

/-- Convert the page that a reader gives, once all of it is there. -/
def parse (parser : PageParser) (s : Session) (reads : List ReadStep) :
    Except ReadFailure Conversion × Session :=
  match ReadStep.collect reads with
  | .error failure => (.error failure, s)
  | .ok bytes =>
    let (c, s) := s.parseText parser (pageText bytes)
    (.ok c, s)

/-- Empty the buffer and start the names again. -/
def reset (s : Session) : Session :=
  { s with names := s.names.reset, output := .empty }

/-- Change the stem of the names to come. -/
def setStem (s : Session) (stem : String) : Session :=
  { s with options := { s.options with stem }, names := s.names.setStem stem }

/-- Change where the conversions to come put what has no created ancestor. -/
def setDefaultParent (s : Session) (defaultParent : String) : Session :=
  { s with options := { s.options with defaultParent } }

/-- Let the conversions to come keep or drop text without a created ancestor. -/
def setKeepRootText (s : Session) (keepRootText : Bool) : Session :=
  { s with options := { s.options with keepRootText } }

/-- Edit one of the filter sets. -/
def editFilter (s : Session) (role : Filters.Role) (e : TagSet.Edit) : Session :=
  { s with options := { s.options with filters := s.options.filters.edit role e } }

/-- Hand the buffer on. -/
def drain (s : Session) (limit : Option Nat) : Drain × Session :=
  let (outcome, output) := s.output.drain limit
  (outcome, { s with output })

/-! ## Commands -/

/-- Something that a session can be told to do. -/
inductive Command where
  | convert (d : Document)
  | parseText (html : String)
  | parse (reads : List ReadStep)
  | reset
  | setStem (stem : String)
  | setDefaultParent (defaultParent : String)
  | setKeepRootText (keepRootText : Bool)
  | editFilter (role : Filters.Role) (edit : TagSet.Edit)
  | drain (limit : Option Nat)
  deriving DecidableEq

/-- What a command answers. -/
inductive Reply where
  | silent
  | converted (c : Conversion)
  | failed (failure : ReadFailure)
  | drained (outcome : Drain)
  deriving DecidableEq

namespace Reply

/-- The conversion that took place, if any. -/
def conversion? : Reply → Option Conversion
  | .converted c => some c
  | _ => none

/-- The text that the command added. -/
def text (r : Reply) : String :=
  (r.conversion?.map Conversion.text).getD ""

/-- What was reported meanwhile. -/
def events (r : Reply) : List Event :=
  (r.conversion?.map Conversion.events).getD []

end Reply

/-- Carry out a command. -/
def apply (parser : PageParser) (s : Session) : Command → Reply × Session
  | .convert d =>
    let (c, s) := s.convert d
    (.converted c, s)
  | .parseText html =>
    let (c, s) := s.parseText parser html
    (.converted c, s)
  | .parse reads =>
    match s.parse parser reads with
    | (.ok c, s) => (.converted c, s)
    | (.error failure, s) => (.failed failure, s)
  | .reset => (.silent, s.reset)
  | .setStem stem => (.silent, s.setStem stem)
  | .setDefaultParent defaultParent => (.silent, s.setDefaultParent defaultParent)
  | .setKeepRootText keepRootText => (.silent, s.setKeepRootText keepRootText)
  | .editFilter role e => (.silent, s.editFilter role e)
  | .drain limit =>
    let (outcome, s) := s.drain limit
    (.drained outcome, s)

/-- Carry out commands in order: what each answered, and the session in the end. -/
def run (parser : PageParser) (s : Session) : List Command → List Reply × Session
  | [] => ([], s)
  | c :: cs =>
    let (reply, s) := s.apply parser c
    let (replies, s) := s.run parser cs
    (reply :: replies, s)

end Session

end DomScript
