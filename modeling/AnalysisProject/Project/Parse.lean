import AnalysisProject.Markup.Check
import AnalysisProject.Markup.Document
import AnalysisProject.Project.Interpretation

namespace AnalysisProject

open Markup

namespace Project

inductive ParseFailure
  /-- The check refuses the document, of which `source` is the text it looked at. -/
  | malformed (source : Text) (refusal : Refusal)
  | unreadable (failure : ReadFailure)
  | wrongRoot (found : Option Text)
  deriving DecidableEq

structure Parsed where
  project : Project
  version : Option Text
  deriving DecidableEq

def dropMark (s : Text) : Text := if Text.startsWith [CodeUnit.byteOrderMark] s then s.drop 1 else s

/-- What the reading of a text comes to. A fault of the check is not reported as a failure. -/
inductive ParseResult
  | parsed (p : Parsed)
  | failed (failure : ParseFailure)
  | fault (fault : Fault)
  deriving DecidableEq

def ofDocument (nodes : List Node) : ParseResult :=
  match nodes.find? (·.name?.isSome) with
  | none => .failed (.wrongRoot none)
  | some root =>
    if root.name? == some Layout.rootElement then
      .parsed ⟨ofNode root, root.attribute? Layout.versionAttribute⟩
    else .failed (.wrongRoot root.name?)

/-- Reads a document. A byte-order mark at the start is passed over; the check passes over another
one. -/
def parse (s : Text) : ParseResult :=
  let source := dropMark (dropMark s)
  match check source with
  | .error (.fault fault) => .fault fault
  | .error (.refused refusal) => .failed (.malformed source refusal)
  | .ok () =>
    match readDocument (dropMark s) with
    | .error failure => .failed (.unreadable failure)
    | .ok nodes => ofDocument nodes

end Project
end AnalysisProject
