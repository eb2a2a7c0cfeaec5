import DomScript.CommandLine.Directory
import DomScript.Main
import DomScript.Proofs.Document.Tree
import DomScript.Proofs.Conversion.Recursion
import DomScript.Proofs.VariableNames
import DomScript.Proofs.WordOrder
import DomScript.Proofs.Dom.Execution
import DomScript.Proofs.Dom.Rebuild
import DomScript.Proofs.Conversion.Reach
import DomScript.Proofs.Text.Split
import DomScript.Proofs.Text.Literal
import DomScript.Proofs.Text.Plain
import DomScript.Proofs.Text.Closing
import DomScript.Proofs.Script.Decode
import DomScript.Proofs.Script.Containment
import DomScript.Proofs.Conversion.Decode
import DomScript.Proofs.Conversion.Declared
import DomScript.Proofs.Session.History
import DomScript.Proofs.Session.Names
import DomScript.Proofs.Session.Delivery
import DomScript.Proofs.Session.Reading
import DomScript.Proofs.Session.Reset
import DomScript.Proofs.Document.Shape
import DomScript.Proofs.Document.Copying
import DomScript.Proofs.Conversion.Renumbering
import DomScript.Proofs.Conversion.Sequence
import DomScript.Proofs.Conversion.Unwrapping
import DomScript.Proofs.Text.Cut
import DomScript.Proofs.Conversion.Skipped
import DomScript.Proofs.Conversion.Membership
import DomScript.Proofs.Conversion.Reports
import DomScript.Proofs.Conversion.Guarded
import DomScript.Proofs.CommandLine.Arguments
import DomScript.Proofs.CommandLine.Outcome
import DomScript.Proofs.CommandLine.Logging
import DomScript.Proofs.CommandLine.Files
import DomScript.Proofs.CommandLine.Choices
import DomScript.Proofs.Document.Links
import DomScript.Proofs.NameEnumeration
import DomScript.Proofs.Text.NormalForm
import DomScript.Proofs.Conversion.Literals
import DomScript.Proofs.Text.Blocks
import DomScript.Proofs.Script.Styles
import DomScript.Proofs.Script.Dataset
import DomScript.Proofs.Conversion.Spaces
import DomScript.Proofs.Script.Events
import DomScript.Proofs.TagOccurrences
import DomScript.Proofs.Conversion.Steps
import DomScript.Proofs.Conversion.RootText
