/-
DomScript.Html.Token — the tokens of a page, and reading them.

Which characters form a token depends on what is being read: ordinary content, the text of an
element whose content is not markup, or the body of a script. `Reading.next` takes the next token
off a text, given that context; it always takes at least one character.
-/
import DomScript.Attribute
import DomScript.Html.Doctype
import DomScript.Html.Reference

namespace DomScript.Html

/-! ## Tokens and contexts -/

/-- A piece of a page. Names are lower-case. -/
inductive Token where
  | doctype (d : Doctype)
  | startTag (name : String) (attributes : List Attribute)
  | endTag (name : String)
  | comment (text : String)
  | text (chars : List Char)
  | endOfInput
  deriving DecidableEq

/-- How the characters to come are read. -/
inductive Lexing where
  | markup
  /-- Text with references, up to the end tag of this name. -/
  | replaceable (name : String)
  /-- Text without references, up to the end tag of this name. -/
  | raw (name : String)
  | script
  | plain
  deriving DecidableEq

/-- Whether a tag name ends before this character. -/
def endsName (c : Char) : Bool :=
  Text.isAsciiBlank c || c == '/' || c == '>'

/-- Whether a text begins with `name` in any letter case and the name ends there. -/
def beginsName (name : List Char) (cs : List Char) : Bool :=
  (cs.take name.length).map Char.toLower == name && (cs.drop name.length).head?.any endsName

/-- Whether a text begins with the end tag of `name`. -/
def beginsEndTag (name : List Char) : List Char → Bool
  | '<' :: '/' :: cs => beginsName name cs
  | _ => false

/-- Whether a text begins with markup: a tag, a comment or a declaration. -/
def beginsMarkup : List Char → Bool
  | '<' :: '/' :: _ :: _ => true
  | '<' :: c :: _ => c == '!' || c == '?' || c.isAlpha
  | _ => false

/-! ## Text -/

/-- Cut a text before the first place where `stop` holds. -/
def splitBefore (stop : List Char → Bool) : List Char → List Char × List Char
  | [] => ([], [])
  | c :: cs =>
    if stop (c :: cs) then ([], c :: cs)
    else
      let (before, after) := splitBefore stop cs
      (c :: before, after)

/-- Where a script stands with respect to the comments inside it, and how many dashes have just been
read. A comment that holds a script start tag also hides the end tag that belongs to it. -/
inductive ScriptState where
  | code
  | comment (dashes : Nat)
  | hidden (dashes : Nat)
  deriving DecidableEq

namespace ScriptState

/-- The name that ends or hides a script. -/
def scriptName : List Char :=
  ['s', 'c', 'r', 'i', 'p', 't']

/-- Whether the script ends before this text. -/
def stopsAt (s : ScriptState) (cs : List Char) : Bool :=
  match s with
  | .hidden _ => false
  | _ => beginsEndTag scriptName cs

/-- The number of dashes after one more character, of which two count. -/
def countDash (dashes : Nat) (c : Char) : Nat :=
  if c == '-' then min (dashes + 1) 2 else 0

/-- The state after the first character of a text. -/
def next (s : ScriptState) (c : Char) (cs : List Char) : ScriptState :=
  match s with
  | .code => if ['<', '!', '-', '-'].isPrefixOf (c :: cs) then .comment 0 else .code
  | .comment dashes =>
    if c == '>' && dashes == 2 then .code
    else if c == '<' && beginsName scriptName cs then .hidden 0
    else .comment (countDash dashes c)
  | .hidden dashes =>
    if c == '>' && dashes == 2 then .code
    else if beginsEndTag scriptName (c :: cs) then .comment 0
    else .hidden (countDash dashes c)

end ScriptState

/-- Cut a text before the end tag that closes a script. -/
def splitScript (s : ScriptState) : List Char → List Char × List Char
  | [] => ([], [])
  | c :: cs =>
    if s.stopsAt (c :: cs) then ([], c :: cs)
    else
      let (before, after) := splitScript (s.next c cs) cs
      (c :: before, after)

/-! ## Comments -/

/-- How much of the end of a comment has been read. -/
inductive CommentState where
  | opened
  | openedDash
  | body
  | dash
  | dashes
  | bang
  deriving DecidableEq

/-- The text that a state holds back, in case the comment goes on. -/
def CommentState.heldBack : CommentState → List Char
  | .opened | .body => []
  | .openedDash | .dash => ['-']
  | .dashes => ['-', '-']
  | .bang => ['-', '-', '!']

/-- Read a comment after its opening: its text (behind what is read already, in reverse) and what
follows it. -/
def readComment : CommentState → List Char → List Char → List Char × List Char
  | _, acc, [] => (acc.reverse, [])
  | s, acc, c :: cs =>
    match s, c with
    | .opened, '>' | .openedDash, '>' | .dashes, '>' | .bang, '>' => (acc.reverse, cs)
    | .opened, '-' => readComment .openedDash acc cs
    | .openedDash, '-' => readComment .dashes acc cs
    | .body, '-' => readComment .dash acc cs
    | .dash, '-' => readComment .dashes acc cs
    | .dashes, '-' => readComment .dashes ('-' :: acc) cs
    | .dashes, '!' => readComment .bang acc cs
    | .bang, '-' => readComment .dash (s.heldBack.reverse ++ acc) cs
    | _, _ => readComment .body (c :: (s.heldBack.reverse ++ acc)) cs

/-- What stands before the first `>`, and what follows it. -/
def splitAtClose (cs : List Char) : List Char × List Char :=
  let (before, after) := splitBefore (·.head? == some '>') cs
  (before, after.drop 1)

/-- Read a declaration after its `<!`: a comment, a doctype, or anything else as a comment. -/
def readDeclaration (cs : List Char) : Token × List Char :=
  if ['-', '-'].isPrefixOf cs then
    let (text, rest) := readComment .opened [] (cs.drop 2)
    (.comment (.ofList text), rest)
  else
    let (inside, rest) := splitAtClose cs
    if lowerName (inside.take 7) == "doctype" then (.doctype (.read (inside.drop 7)), rest)
    else (.comment (.ofList inside), rest)

/-! ## Tags -/

/-- Whether an unquoted value ends before this character. -/
def endsValue (c : Char) : Bool :=
  Text.isAsciiBlank c || c == '>'

/-- Read an attribute value after its equals sign; nothing if the text ends inside it. -/
def readValue? (cs : List Char) : Option (List Char × List Char) :=
  match cs.dropWhile Text.isAsciiBlank with
  | [] => none
  | c :: cs =>
    if c == '"' || c == '\x27' then
      match splitBefore (·.head? == some c) cs with
      | (_, []) => none
      | (value, _ :: rest) => some (Html.resolve true value, rest)
    else
      let (value, rest) := splitBefore (·.head?.any endsValue) (c :: cs)
      some (Html.resolve true value, rest)

/-- Keep the first of several attributes with one key. -/
def addAttribute (a : Attribute) (found : List Attribute) : List Attribute :=
  if found.any (·.key == a.key) then found else found ++ [a]

/-- Read the attributes of a tag up to its end; nothing if the text ends inside it. Every round
takes a character at least, so the length of the text is fuel enough. -/
def readAttributes? : Nat → List Attribute → List Char → Option (List Attribute × List Char)
  | 0, _, _ => none
  | fuel + 1, found, cs =>
    match cs.dropWhile fun c => Text.isAsciiBlank c || c == '/' with
    | [] => none
    | '>' :: rest => some (found, rest)
    | c :: cs =>
      let (tail, rest) := splitBefore (·.head?.any fun c => endsName c || c == '=') cs
      let key := lowerName (c :: tail)
      match rest.dropWhile Text.isAsciiBlank with
      | '=' :: rest =>
        match readValue? rest with
        | none => none
        | some (value, rest) => readAttributes? fuel (addAttribute ⟨key, .ofList value⟩ found) rest
      | rest => readAttributes? fuel (addAttribute ⟨key, ""⟩ found) rest

/-- Read a tag from its name on: the name, the attributes and what follows; nothing if the text ends
inside the tag. -/
def readTag? (cs : List Char) : Option (String × List Attribute × List Char) :=
  let (name, rest) := splitBefore (·.head?.any endsName) cs
  (readAttributes? (rest.length + 1) [] rest).map fun (attributes, rest) =>
    (lowerName name, attributes, rest)

/-! ## Reading -/

/-- One step of reading. -/
structure Reading where
  /-- The token that was read, if any. -/
  token : Option Token
  /-- What follows it. -/
  rest : List Char
  /-- Whether the token is text whose first character is a number without its semicolon. -/
  beginsUnclosed : Bool := false
  deriving DecidableEq

namespace Reading

/-- Read markup. An end tag without a name is no token, and a tag that the text ends in is
dropped. -/
def markup : List Char → Reading
  | '<' :: '/' :: c :: cs =>
    if c.isAlpha then
      match readTag? (c :: cs) with
      | some (name, _, rest) => { token := some (.endTag name), rest }
      | none => { token := none, rest := [] }
    else if c == '>' then { token := none, rest := cs }
    else
      let (text, rest) := splitAtClose (c :: cs)
      { token := some (.comment (.ofList text)), rest }
  | '<' :: '!' :: cs =>
    let (token, rest) := readDeclaration cs
    { token := some token, rest }
  | '<' :: '?' :: cs =>
    let (text, rest) := splitAtClose ('?' :: cs)
    { token := some (.comment (.ofList text)), rest }
  | '<' :: cs =>
    match readTag? cs with
    | some (name, attributes, rest) => { token := some (.startTag name attributes), rest }
    | none => { token := none, rest := [] }
  | cs => { token := none, rest := cs.drop 1 }

/-- Read text, with its references unless it is raw; where there is no text, read markup. -/
def text (raw : Bool) (split : List Char × List Char) (cs : List Char) : Reading :=
  match split with
  | ([], _) => markup cs
  | (text, rest) =>
    if raw then { token := some (.text text), rest }
    else
      { token := some (.text (Html.resolve false text)), rest
        beginsUnclosed := beginsUnclosedNumber text }

/-- Take the next token off a text that is not empty. -/
def next (lexing : Lexing) (cs : List Char) : Reading :=
  match lexing with
  | .markup => text false (splitBefore beginsMarkup cs) cs
  | .replaceable name => text false (splitBefore (beginsEndTag name.toList) cs) cs
  | .raw name => text true (splitBefore (beginsEndTag name.toList) cs) cs
  | .script => text true (splitScript .code cs) cs
  | .plain => { token := some (.text cs), rest := [] }

end Reading

/-! ## Normalized input -/

/-- Write every line break as a line feed. -/
def normalizeBreaks : List Char → List Char
  | [] => []
  | '\r' :: '\n' :: cs => '\n' :: normalizeBreaks cs
  | '\r' :: cs => '\n' :: normalizeBreaks cs
  | c :: cs => c :: normalizeBreaks cs

/-- Drop a byte order mark in front. -/
def dropByteOrderMark : List Char → List Char
  | '\ufeff' :: cs => cs
  | cs => cs

end DomScript.Html
