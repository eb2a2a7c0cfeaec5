/-
DomScript.CommandLine.Path — what a path leads to.

A path is followed name by name, from the root or from the working directory. Only a directory can
be passed through, so a name behind a file is a failure, and so is one behind a name that is not
there. What a path leads to is its `Target`; whether that can be opened or made is decided by
who asks.
-/
import DomScript.CommandLine.Run

namespace DomScript.CommandLine

/-! ## Targets -/

/-- The devices: one that discards, one that refuses every byte, and the standard streams. -/
inductive Device where
  | null
  | full
  | stdin
  | stdout
  | stderr
  deriving DecidableEq

/-- The names of the devices. -/
def Device.named : List (String × Device) :=
  [("null", .null), ("full", .full), ("stdin", .stdin), ("stdout", .stdout), ("stderr", .stderr)]

/-- What a path leads to. -/
inductive Target where
  /-- The working directory. -/
  | working
  | root
  /-- The directory of the devices. -/
  | devices
  /-- Another directory. -/
  | elsewhere
  /-- A file in the working directory. -/
  | file (name : String)
  | device (d : Device)
  /-- A free name in the working directory. -/
  | vacant (name : String)
  /-- A free name in another directory. -/
  | vacantElsewhere
  /-- A name that is too long to be used. -/
  | overlong
  deriving DecidableEq

namespace Target

/-- Whether this is a directory. -/
def isDirectory : Target → Bool
  | working | root | devices | elsewhere => true
  | _ => false

/-- The longest name that a file can have, in bytes. -/
def nameLimit : Nat := 255

/-- The directories that stand in the root. -/
def topDirectories : List String :=
  ["bin", "boot", "etc", "home", "lib", "media", "mnt", "opt", "proc", "root", "run", "sbin",
    "srv", "sys", "tmp", "usr", "var"]

/-- The directory around a directory. -/
def parent : Target → Target
  | working | elsewhere => elsewhere
  | _ => root

/-- What a name means in a directory. `has` tells which files are in the working directory. -/
def look (has : String → Bool) (directory : Target) (name : String) : Target :=
  if name == "." then directory
  else if name == ".." then directory.parent
  else if nameLimit < name.utf8ByteSize then .overlong
  else
    match directory with
    | working => if has name then .file name else .vacant name
    | root =>
      if name == "dev" then .devices
      else if topDirectories.contains name then .elsewhere
      else .vacantElsewhere
    | devices => ((Device.named.lookup name).map Target.device).getD .vacantElsewhere
    | _ => .vacantElsewhere

/-- Go on from a target to a name inside it, which has to be a directory. -/
def step (has : String → Bool) (t : Target) (name : String) : Except SystemError Target :=
  match t with
  | file _ | device _ => .error .notDirectory
  | vacant _ | vacantElsewhere => .error .notFound
  | overlong => .error .nameTooLong
  | directory => .ok (look has directory name)

end Target

/-! ## Paths -/

namespace Path

/-- The length that a path has to stay below, in bytes. -/
def lengthLimit : Nat := 4096

/-- The names on a path, without the empty ones. -/
def names (path : String) : List String :=
  ((Text.splitAll '/' path.toList).filter (!·.isEmpty)).map String.ofList

/-- Where a path starts. -/
def start (path : String) : Target :=
  if path.toList.head? == some '/' then .root else .working

/-- Whether a path ends in a slash, which asks for a directory. -/
def asksDirectory (path : String) : Bool :=
  path.toList.getLast? == some '/'

/-- Follow a path. -/
def follow (has : String → Bool) (path : String) : Except SystemError Target :=
  if lengthLimit ≤ path.utf8ByteSize then .error .nameTooLong
  else (names path).foldlM (Target.step has) (start path)

end Path

end DomScript.CommandLine
