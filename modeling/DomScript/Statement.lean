/-
DomScript.Statement — the statements of a generated script, and how each is written.

A statement is written on one line. `Attribute.statements` gives the statements that set an
attribute on the object in a variable: one for each declaration of a style, one for every other
attribute.
-/
import DomScript.Attribute
import DomScript.Tag
import DomScript.Text.Spelling

namespace DomScript

/-! ## Statements -/

/-- The right-hand side of an assignment. -/
inductive Operand where
  | truth
  | text (raw : String)
  deriving DecidableEq

/-- A statement of a script. Texts are given raw and escaped when they are written; handlers and
code are written as they are. -/
inductive Statement where
  | createElement (var : String) (tag : Tag)
  | createText (var : String) (text : String)
  | assign (var : String) (path : List String) (value : Operand)
  | listen (var : String) (event : String) (handler : String)
  | appendChild (parent : String) (child : String)
  | code (text : String)
  deriving DecidableEq

/-- A text as a double-quoted literal. -/
def quoted (raw : String) : String :=
  "\"" ++ Text.escape raw ++ "\""

/-- The written form of a right-hand side. -/
def Operand.render : Operand → String
  | .truth => "true"
  | .text raw => quoted raw

namespace Statement

/-- The line of a statement, without its line break. -/
def render : Statement → String
  | .createElement var tag =>
    "var " ++ var ++ " = document.createElement(\"" ++ tag.name ++ "\");"
  | .createText var text => "var " ++ var ++ " = document.createTextNode(" ++ quoted text ++ ");"
  | .assign var path value =>
    var ++ path.foldr (fun name rest => "." ++ name ++ rest) "" ++ " = " ++ value.render ++ ";"
  | .listen var event handler =>
    var ++ ".addEventListener(\"" ++ event ++ "\", function() \x7b" ++ handler ++ "\x7d, false);"
  | .appendChild parent child => parent ++ ".appendChild(" ++ child ++ ");"
  | .code text => text

end Statement

/-- The text of a script: every statement on a line of its own. -/
def renderScript (script : List Statement) : String :=
  String.join (script.map fun s => s.render ++ "\n")

/-! ## Attributes -/

/-- The declarations of a style: what stands between semicolons, trimmed and cut at the first
colon, both sides trimmed. Parts without a colon declare nothing. -/
def styleDeclarations (style : List Char) : List (List Char × List Char) :=
  (Text.splitAll ';' style).filterMap fun part =>
    (Text.splitFirst? ':' (Text.trim part)).map fun (property, value) =>
      (Text.trim property, Text.trim value)

namespace Attribute

/-- The statements that set an attribute on the object in `var`. -/
def statements (var : String) (a : Attribute) : List Statement :=
  match Rule.forKey a.key with
  | .style =>
    (styleDeclarations a.value.toList).map fun (property, value) =>
      .assign var ["style", .ofList (Text.camelChars property)] (.text (.ofList value))
  | .className => [.assign var ["className"] (.text a.value)]
  | .dataset =>
    [.assign var ["dataset", .ofList (Text.camelChars (a.key.toList.drop dataMark.length))]
      (.text a.value)]
  | .event => [.listen var (.ofList (a.key.toList.drop 2)) a.value]
  | .property =>
    [.assign var [Text.camelCase a.key] (if a.value.isEmpty then .truth else .text a.value)]

end Attribute

end DomScript
