import ModalFitch.Binary64
import ModalFitch.CheckError
import ModalFitch.Checker
import ModalFitch.Checker.Step
import ModalFitch.Closure
import ModalFitch.CommandLine.Files
import ModalFitch.CommandLine.Options
import ModalFitch.CommandLine.Run
import ModalFitch.CommandLine.Usage
import ModalFitch.Config
import ModalFitch.Document.Basic
import ModalFitch.Document.Loading
import ModalFitch.Document.Rows
import ModalFitch.Json.Basic
import ModalFitch.Json.Printer
import ModalFitch.Json.Reader
import ModalFitch.Justification
import ModalFitch.Line
import ModalFitch.Main
import ModalFitch.Outline.Basic
import ModalFitch.Outline.Citing
import ModalFitch.Outline.Query
import ModalFitch.Outline.Visibility
import ModalFitch.Pattern
import ModalFitch.Proofs.Nesting
import ModalFitch.Reach
import ModalFitch.Report
import ModalFitch.Report.Text
import ModalFitch.Rule.Application
import ModalFitch.Rule.Catalog
import ModalFitch.Rule.Name
import ModalFitch.Rule.Schema
import ModalFitch.Sentence.Basic
import ModalFitch.Sentence.Reading
import ModalFitch.Sentence.Token
import ModalFitch.Sentence.Valuation
import ModalFitch.Session.Basic
import ModalFitch.Session.Desk
import ModalFitch.System
import ModalFitch.Text.Blank
import ModalFitch.Text.CodePoint
import ModalFitch.Text.Digit
import ModalFitch.Text.Folding
import ModalFitch.Text.Numeral
import ModalFitch.Text.Padding
import ModalFitch.Text.Printable
import ModalFitch.Text.Quoted
import ModalFitch.Text.Utf8
import ModalFitch.Verdict
import ModalFitch.World
import ModalFitch.Proofs.ScopeTree
import ModalFitch.Proofs.Reachability
import ModalFitch.Proofs.WorldTree
import ModalFitch.Proofs.Citing
import ModalFitch.Proofs.Matching
import ModalFitch.Proofs.Totality
import ModalFitch.Proofs.RuleSoundness
import ModalFitch.Proofs.Soundness
import ModalFitch.Proofs.Monotonicity
import ModalFitch.Proofs.Locality
import ModalFitch.Proofs.Editing
import ModalFitch.Proofs.Display
import ModalFitch.Proofs.Serving
import ModalFitch.Proofs.Coverage
import ModalFitch.Proofs.Refusals
import ModalFitch.Proofs.Cascade
import ModalFitch.Proofs.Publication
import ModalFitch.Proofs.Grammar
import ModalFitch.Proofs.Reading
import ModalFitch.Proofs.RoundTrip
import ModalFitch.Proofs.Intervals
import ModalFitch.Proofs.Pieces
import ModalFitch.Proofs.Renumbering
import ModalFitch.Proofs.Relocation
import ModalFitch.Proofs.Placement
import ModalFitch.Proofs.Legibility
import ModalFitch.Proofs.Committing
import ModalFitch.Proofs.Flattening
import ModalFitch.Proofs.Interference
import ModalFitch.Proofs.Truncation
import ModalFitch.Proofs.Appending
import ModalFitch.Proofs.Rows
import ModalFitch.Proofs.Instances
import ModalFitch.Proofs.Choices
import ModalFitch.Proofs.Reordering
import ModalFitch.Proofs.Printing
import ModalFitch.Proofs.LoadFailures
import ModalFitch.Proofs.Visibility
import ModalFitch.Proofs.StrictScopes
import ModalFitch.Proofs.Importing
import ModalFitch.Proofs.WorldClosure
import ModalFitch.Proofs.TransitiveClosure
import ModalFitch.Proofs.Accessibility
import ModalFitch.Proofs.DepthRule
import ModalFitch.Proofs.Lexing
import ModalFitch.Proofs.ErrorSpans
import ModalFitch.Proofs.Respelling
import ModalFitch.Proofs.Commuting
import ModalFitch.Proofs.WorldNesting
import ModalFitch.Proofs.Dependence
import ModalFitch.Proofs.ShortCircuit
