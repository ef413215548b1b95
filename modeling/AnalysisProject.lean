import AnalysisProject.Fault
import AnalysisProject.Text.Basic
import AnalysisProject.Text.Blank
import AnalysisProject.Text.Capital
import AnalysisProject.Text.Case
import AnalysisProject.Text.Line
import AnalysisProject.Text.Search
import AnalysisProject.Text.Small
import AnalysisProject.Text.Utf8
import AnalysisProject.Number.Basic
import AnalysisProject.Number.Shortest
import AnalysisProject.Value.Basic
import AnalysisProject.Value.Json
import AnalysisProject.Markup.Name
import AnalysisProject.Markup.Reference
import AnalysisProject.Markup.Tag
import AnalysisProject.Markup.Flaw
import AnalysisProject.Markup.Check
import AnalysisProject.Markup.Doctype
import AnalysisProject.Markup.Tree
import AnalysisProject.Markup.Document
import AnalysisProject.Markup.Printer
import AnalysisProject.Markup.Record
import AnalysisProject.Project.Basic
import AnalysisProject.Project.Layout
import AnalysisProject.Project.LineNumber
import AnalysisProject.Project.Interpretation
import AnalysisProject.Project.Canonical
import AnalysisProject.Project.Parse
import AnalysisProject.Storage.Path
import AnalysisProject.Storage.FileTable
import AnalysisProject.Storage.Draft
import AnalysisProject.Storage.Error
import AnalysisProject.Storage.Document
import AnalysisProject.Settings.Basic
import AnalysisProject.Settings.Environment
import AnalysisProject.Log.Line
import AnalysisProject.Session.Basic
import AnalysisProject.Session.Command
import AnalysisProject.Proofs.Except
import AnalysisProject.Proofs.Text.Replacement
import AnalysisProject.Proofs.Text.Search
import AnalysisProject.Proofs.Markup.Escaping
import AnalysisProject.Proofs.Markup.Decoding
import AnalysisProject.Proofs.Markup.Spelling
import AnalysisProject.Proofs.Markup.Acceptance
import AnalysisProject.Proofs.Markup.Construction
import AnalysisProject.Proofs.Text.Seam
import AnalysisProject.Proofs.Text.Lines
import AnalysisProject.Proofs.Markup.Layout
import AnalysisProject.Proofs.Markup.Recovery
import AnalysisProject.Proofs.Markup.Rest
import AnalysisProject.Proofs.Project.Parse
import AnalysisProject.Proofs.Text.Padding
import AnalysisProject.Proofs.Project.LineNumber
import AnalysisProject.Proofs.Project.LineReading
import AnalysisProject.Proofs.Project.Document
import AnalysisProject.Proofs.Project.Change
import AnalysisProject.Proofs.Project.Adoption
import AnalysisProject.Proofs.Markup.Excerpt
import AnalysisProject.Proofs.Markup.Provenance
import AnalysisProject.Proofs.Project.Settled
import AnalysisProject.Proofs.Project.RoundTrip
import AnalysisProject.Proofs.Project.Entry
import AnalysisProject.Proofs.Project.Shape
import AnalysisProject.Proofs.Markup.Lines
import AnalysisProject.Proofs.Project.Lines
import AnalysisProject.Proofs.Markup.Variant
import AnalysisProject.Proofs.Markup.Tolerance
import AnalysisProject.Proofs.Project.Variant
import AnalysisProject.Proofs.Markup.Outline
import AnalysisProject.Proofs.Markup.Pieces
import AnalysisProject.Proofs.Markup.Roots
import AnalysisProject.Proofs.Project.SingleRoot
import AnalysisProject.Proofs.Markup.Register
import AnalysisProject.Proofs.Session.Report
import AnalysisProject.Proofs.Text.Utf8
import AnalysisProject.Proofs.Text.Joining
import AnalysisProject.Proofs.Storage.Path
import AnalysisProject.Proofs.Storage.FileTable
import AnalysisProject.Proofs.Session.Reopening
import AnalysisProject.Proofs.Fold
import AnalysisProject.Proofs.Project.Description
import AnalysisProject.Proofs.Session.History
import AnalysisProject.Proofs.Session.Files
import AnalysisProject.Proofs.Session.Directory
import AnalysisProject.Proofs.Markup.Gaps
import AnalysisProject.Proofs.Log.Level
import AnalysisProject.Proofs.Session.Independence
import AnalysisProject.Proofs.Markup.Record
import AnalysisProject.Proofs.Markup.Distinction
import AnalysisProject.Proofs.Project.Printing
import AnalysisProject.Proofs.Project.Distinction
import AnalysisProject.Proofs.Session.Answer
import AnalysisProject.Proofs.Text.Small
import AnalysisProject.Proofs.Number.Nearest
import AnalysisProject.Proofs.Settings.Reading
import AnalysisProject.Proofs.Settings.Resolution
import AnalysisProject.Proofs.Log.Body
import AnalysisProject.Proofs.Value.Numeral
import AnalysisProject.Proofs.Value.Form
import AnalysisProject.Proofs.Log.Framing
