/-
DomScript.CommandLine.Arguments — reading the arguments of the command line.

Arguments are read from left to right. An option takes its value from the same argument, after an
equals sign or directly behind a single letter, or from the next argument, which then must not look
like another option. The first argument that cannot be accepted ends the reading, and so does a
request for the version; hence of a bad argument and such a request the earlier one counts.
-/
import DomScript.Conversion

namespace DomScript.CommandLine

/-! ## Options and flags -/

/-- An option with a value. -/
inductive ValueOption where
  | input
  | output
  | defaultParent
  | stem
  | includes
  | excludes
  | ignores
  deriving DecidableEq

/-- An option without a value. -/
inductive Flag where
  | keepRootText
  | verbose
  | quiet
  | version
  | help
  deriving DecidableEq

/-- The options by their full names. -/
def longOptions : List (String × ValueOption) :=
  [("input", .input), ("output", .output), ("default-parent", .defaultParent), ("prefix", .stem),
    ("include", .includes), ("exclude", .excludes), ("ignore", .ignores)]

/-- The flags by their full names. -/
def longFlags : List (String × Flag) :=
  [("keep-root-text", .keepRootText), ("verbose", .verbose), ("quiet", .quiet),
    ("version", .version), ("help", .help)]

/-- The options by their letters. -/
def shortOptions : List (Char × ValueOption) :=
  [('i', .input), ('o', .output), ('p', .defaultParent)]

/-- The flags by their letters. -/
def shortFlags : List (Char × Flag) :=
  [('v', .version), ('h', .help)]

/-! ## Single arguments -/

/-- What one argument is. -/
inductive Argument where
  /-- An option, with its value if the argument holds one. -/
  | option (o : ValueOption) (value : Option String)
  | flag (f : Flag)
  /-- Two dashes: what follows is no option. -/
  | endOfOptions
  | unexpected
  deriving DecidableEq

namespace Argument

/-- The argument that follows two dashes. -/
def ofLong (cs : List Char) : Argument :=
  let (name, value) :=
    match Text.splitFirst? '=' cs with
    | some (name, value) => (String.ofList name, some (String.ofList value))
    | none => (String.ofList cs, none)
  match longOptions.lookup name, longFlags.lookup name, value with
  | some o, _, _ => .option o value
  | none, some f, none => .flag f
  | _, _, _ => .unexpected

/-- The value that follows the letter of an option. -/
def attachedValue : List Char → Option String
  | [] => none
  | '=' :: cs => some (.ofList cs)
  | cs => some (.ofList cs)

/-- The argument that follows one dash. A flag acts before the letters behind it are looked at. -/
def ofShort (c : Char) (cs : List Char) : Argument :=
  match shortOptions.lookup c, shortFlags.lookup c with
  | some o, _ => .option o (attachedValue cs)
  | none, some f => .flag f
  | none, none => .unexpected

/-- What an argument is. -/
def ofString (s : String) : Argument :=
  match s.toList with
  | ['-', '-'] => .endOfOptions
  | '-' :: '-' :: cs => ofLong cs
  | '-' :: c :: cs => ofShort c cs
  | _ => .unexpected

/-- Whether an argument may be the value of the option before it. -/
def isValue (s : String) : Bool :=
  s == "-" || s.toList.head? != some '-'

end Argument

/-! ## The accepted arguments -/

/-- What the arguments ask for. -/
structure Arguments where
  input : Option String := none
  output : Option String := none
  defaultParent : Option String := none
  stem : Option String := none
  includes : Option (List String) := none
  excludes : Option (List String) := none
  ignores : Option (List String) := none
  keepRootText : Bool := false
  verbose : Bool := false
  quiet : Bool := false
  deriving DecidableEq

/-- What comes of a list of arguments. -/
inductive Request where
  | run (a : Arguments)
  | version
  | help
  | misuse
  deriving DecidableEq

namespace Arguments

/-- Give a value to an option that may have one only. -/
def setOnce (old : Option String) (value : String) : Option (Option String) :=
  if old.isSome then none else some (some value)

/-- Give a path to an option: a path is not empty. -/
def setPath (old : Option String) (value : String) : Option (Option String) :=
  if value.isEmpty then none else setOnce old value

/-- The items of a list option, with those of an earlier occurrence in front. -/
def addItems (old : Option (List String)) (value : String) : Option (List String) :=
  some (old.getD [] ++ (Text.splitAll ',' value.toList).map String.ofList)

/-- Give a value to an option, unless it cannot have it. -/
def set? (a : Arguments) (value : String) : ValueOption → Option Arguments
  | .input => (setPath a.input value).map fun input => { a with input }
  | .output => (setPath a.output value).map fun output => { a with output }
  | .defaultParent =>
    (setOnce a.defaultParent value).map fun defaultParent => { a with defaultParent }
  | .stem => (setOnce a.stem value).map fun stem => { a with stem }
  | .includes => some { a with includes := addItems a.includes value }
  | .excludes => some { a with excludes := addItems a.excludes value }
  | .ignores => some { a with ignores := addItems a.ignores value }

/-- Accept the arguments as a whole: the two amounts of logging exclude each other. -/
def finish (a : Arguments) : Request :=
  if a.verbose && a.quiet then .misuse else .run a

/-- Read the arguments that are left. A flag may be given once. -/
def readFrom (a : Arguments) : List String → Request
  | [] => a.finish
  | arg :: rest =>
    match Argument.ofString arg with
    | .unexpected => .misuse
    | .endOfOptions => if rest.isEmpty then a.finish else .misuse
    | .flag .version => .version
    | .flag .help => .help
    | .flag .keepRootText =>
      if a.keepRootText then .misuse else readFrom { a with keepRootText := true } rest
    | .flag .verbose => if a.verbose then .misuse else readFrom { a with verbose := true } rest
    | .flag .quiet => if a.quiet then .misuse else readFrom { a with quiet := true } rest
    | .option o (some value) =>
      match a.set? value o with
      | some a => readFrom a rest
      | none => .misuse
    | .option o none =>
      match rest with
      | [] => .misuse
      | value :: rest =>
        if Argument.isValue value then
          match a.set? value o with
          | some a => readFrom a rest
          | none => .misuse
        else .misuse

/-- Read a list of arguments. -/
def read (args : List String) : Request :=
  readFrom {} args

/-! ## Options of the conversion -/

/-- The tags of a list option: each item is trimmed and lower-cased, and empty ones are left out. -/
def tagsOf (items : List String) : List Tag :=
  ((items.map fun item => (Text.trim item.toList).map Char.toLower).filter (!·.isEmpty)).map
    fun cs => ⟨.ofList cs⟩

/-- The set of a list option, or the set that stands when it is not given. -/
def tagSet (items : Option (List String)) (standing : TagSet) : TagSet :=
  match items with
  | some items => ⟨tagsOf items⟩
  | none => standing

/-- The options of the conversion. -/
def options (a : Arguments) : Options where
  stem := a.stem.getD Options.default.stem
  defaultParent := a.defaultParent.getD Options.default.defaultParent
  keepRootText := a.keepRootText
  filters :=
    { includes := tagSet a.includes Filters.default.includes
      excludes := tagSet a.excludes Filters.default.excludes
      ignores := tagSet a.ignores Filters.default.ignores }

end Arguments

end DomScript.CommandLine
