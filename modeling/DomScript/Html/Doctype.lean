/-
DomScript.Html.Doctype — doctypes, and the pages that they mark as loose.

A doctype names the type of a document and may add a public and a system identifier. A page is
loose if its doctype is damaged, is for something else than `html`, or carries identifiers of the
times before the standard. `Doctype.read` reads what stands between the keyword and the closing
`>`; `Doctype.isLoose` judges it.
-/
import DomScript.Text.Blank

namespace DomScript.Html

/-- A name in lower case. -/
def lowerName (cs : List Char) : String :=
  .ofList (cs.map Char.toLower)

/-- A doctype. -/
structure Doctype where
  /-- The name, in lower case. -/
  name : String
  publicId : Option (List Char) := none
  systemId : Option (List Char) := none
  /-- Whether something stands where an identifier or the end is due. -/
  damaged : Bool := false
  deriving DecidableEq

namespace Doctype

/-! ## Reading -/

/-- Drop the blanks in front. -/
def skipBlanks (cs : List Char) : List Char :=
  cs.dropWhile Text.isAsciiBlank

/-- Read a quoted identifier: what the quotes enclose, and what follows them. -/
def readQuoted? : List Char → Option (List Char × List Char)
  | [] => none
  | quote :: cs =>
    if quote == '"' || quote == '\x27' then
      match cs.span (· != quote) with
      | (_, []) => none
      | (inside, _ :: rest) => some (inside, rest)
    else none

/-- Read a system identifier. What follows it does not matter. -/
def readSystem (d : Doctype) (cs : List Char) : Doctype :=
  match readQuoted? (skipBlanks cs) with
  | none => { d with damaged := true }
  | some (systemId, _) => { d with systemId := some systemId }

/-- Read a public identifier, which a system identifier may follow. -/
def readPublic (d : Doctype) (cs : List Char) : Doctype :=
  match readQuoted? (skipBlanks cs) with
  | none => { d with damaged := true }
  | some (publicId, rest) =>
    let d := { d with publicId := some publicId }
    if (skipBlanks rest).isEmpty then d else d.readSystem rest

/-- Read what follows the name. -/
def readIdentifiers (d : Doctype) (cs : List Char) : Doctype :=
  let rest := skipBlanks cs
  let keyword := lowerName (rest.take 6)
  if rest.isEmpty then d
  else if keyword == "public" then d.readPublic (rest.drop 6)
  else if keyword == "system" then d.readSystem (rest.drop 6)
  else { d with damaged := true }

/-- Read a doctype from behind its keyword. -/
def read (cs : List Char) : Doctype :=
  let (name, rest) := (skipBlanks cs).span (!Text.isAsciiBlank ·)
  readIdentifiers { name := lowerName name } rest

/-! ## Loose pages -/

/-- Document types of the times before the standard, by owner. -/
def oldTypes : List (String × List String) :=
  [("+//silmaril", ["html pro v0r11 19970101"]),
    ("-//advasoft ltd", ["html 3.0 aswedit + extensions"]),
    ("-//as", ["html 3.0 aswedit + extensions"]),
    ("-//ietf",
      ["html", "html 2.0", "html 2.0 level 1", "html 2.0 level 2", "html 2.0 strict",
        "html 2.0 strict level 1", "html 2.0 strict level 2", "html 2.1e", "html 3", "html 3.0",
        "html 3.2", "html 3.2 final", "html level 0", "html level 1", "html level 2",
        "html level 3", "html strict", "html strict level 0", "html strict level 1",
        "html strict level 2", "html strict level 3"]),
    ("-//metrius", ["metrius presentational"]),
    ("-//microsoft",
      ["internet explorer 2.0 html", "internet explorer 2.0 html strict",
        "internet explorer 2.0 tables", "internet explorer 3.0 html",
        "internet explorer 3.0 html strict", "internet explorer 3.0 tables"]),
    ("-//netscape comm. corp.", ["html", "strict html"]),
    ("-//o\x27reilly and associates",
      ["html 2.0", "html extended 1.0", "html extended relaxed 1.0"]),
    ("-//softquad", ["hotmetal pro 4.0::19971010::extensions to html 4.0"]),
    ("-//softquad software", ["hotmetal pro 6.0::19990601::extensions to html 4.0"]),
    ("-//spyglass", ["html 2.0 extended"]),
    ("-//sq", ["html 2.0 hotmetal + extensions"]),
    ("-//sun microsystems corp.", ["hotjava html", "hotjava strict html"]),
    ("-//w3c",
      ["html 3 1995-03-24", "html 3.2", "html 3.2 draft", "html 3.2 final", "html 3.2s draft",
        "html 4.0 frameset", "html 4.0 transitional", "html experimental 19960712",
        "html experimental 970421", "w3 html"]),
    ("-//w3o", ["w3 html 3.0"]),
    ("-//webtechs", ["mozilla html", "mozilla html 2.0"])]

/-- Document types that are old unless a system identifier follows, by owner. -/
def oldTypesAlone : List (String × List String) :=
  [("-//w3c", ["html 4.01 frameset", "html 4.01 transitional"])]

/-- Public identifiers that are old as a whole. -/
def oldPublicIds : List String :=
  ["-//w3o//dtd w3 html strict 3.0//en//", "-/w3c/dtd html 4.0 transitional/en", "html"]

/-- Where the one old system identifier points. -/
def oldSystemId : String :=
  "http:" ++ "//www.ibm.com/data/dtd/v11/ibmxhtml1-transitional.dtd"

/-- Whether a public identifier begins with the owner and the name of one of these types. -/
def isOneOf (types : List (String × List String)) (publicId : String) : Bool :=
  types.any fun (owner, names) =>
    names.any fun name =>
      (owner ++ "//dtd " ++ name ++ "//").toList.isPrefixOf publicId.toList

/-- Whether a page with this doctype is loose. The letter case of identifiers does not matter. -/
def isLoose (d : Doctype) : Bool :=
  let publicId := d.publicId.map lowerName
  let systemId := d.systemId.map lowerName
  d.damaged || d.name != "html" || systemId == some oldSystemId ||
    publicId.any fun id =>
      oldPublicIds.contains id || isOneOf oldTypes id ||
        (systemId.isNone && isOneOf oldTypesAlone id)

end Doctype

end DomScript.Html
