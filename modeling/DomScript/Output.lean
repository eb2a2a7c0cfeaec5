/-
DomScript.Output — the buffer that collects a script, and handing it on.

The buffer only grows, until it is cleared or drained. Draining hands all of its bytes to a sink
that may stop taking bytes at a limit: then the buffer stays whole, although the sink already holds
its first bytes. A limit may fall inside a character.
-/
import DomScript.Statement
import DomScript.Text.Utf8

namespace DomScript

/-- Collected lines. -/
structure Output where
  text : String
  deriving DecidableEq

/-- How handing on the buffer ended: all bytes, or those that the sink took before it stopped. -/
inductive Drain where
  | complete (sink : List UInt8)
  | short (sink : List UInt8)
  deriving DecidableEq

namespace Drain

/-- The bytes that reached the sink. -/
def sink : Drain → List UInt8
  | .complete sink => sink
  | .short sink => sink

/-- The number of bytes that is reported, if the sink took them all. -/
def written? : Drain → Option Nat
  | .complete sink => some sink.length
  | .short _ => none

/-- Write bytes to a sink that takes at most `room` bytes, if there is a limit. -/
def writeAll (room : Option Nat) (bytes : List UInt8) : Drain :=
  match room with
  | none => .complete bytes
  | some n => if bytes.length ≤ n then .complete bytes else .short (bytes.take n)

/-- What is said of a sink that stopped taking bytes. -/
def shortMessage : String :=
  "failed to write whole buffer"

end Drain

namespace Output

/-- The buffer before the first line. -/
def empty : Output :=
  ⟨""⟩

/-- The length in bytes. -/
def size (o : Output) : Nat :=
  o.text.utf8ByteSize

/-- Whether nothing is waiting to be handed on. -/
def isEmpty (o : Output) : Bool :=
  o.text.isEmpty

/-- Add text as it is. -/
def add (o : Output) (text : String) : Output :=
  ⟨o.text ++ text⟩

/-- Add a line as it is. -/
def line (o : Output) (text : String) : Output :=
  o.add (text ++ "\n")

/-- Add the lines of a script. -/
def write (o : Output) (script : List Statement) : Output :=
  o.add (renderScript script)

/-- Hand the buffer to a sink that takes at most `limit` bytes, if there is a limit. -/
def drain (o : Output) (limit : Option Nat) : Drain × Output :=
  match Drain.writeAll limit (Text.Utf8.encode o.text.toList) with
  | .complete sink => (.complete sink, empty)
  | .short sink => (.short sink, o)

end Output

end DomScript
