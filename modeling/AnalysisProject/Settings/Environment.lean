import AnalysisProject.Project.LineNumber
import AnalysisProject.Settings.Basic
import AnalysisProject.Text.Small

namespace AnalysisProject

abbrev Environment := List (Text × Text)

namespace Environment

inductive Variable
  | indent
  | debug
  | reportClangAnalyzer
  deriving DecidableEq

namespace Variable

def all : List Variable := [indent, debug, reportClangAnalyzer]

def name : Variable → Text
  | indent => "PROJECT_FILE_INDENT"
  | debug => "PROJECT_FILE_DEBUG"
  | reportClangAnalyzer => "PROJECT_FILE_REPORT_CLANG_ANALYZER"

def description : Variable → Text
  | indent => "Number of spaces per indentation level in written project files (0 = one line)"
  | debug => "Write debug-level log entries to stderr"
  | reportClangAnalyzer => "Report the stored clang static analyzer flag instead of false"

def kind : Variable → Text
  | indent => "number"
  | debug | reportClangAnalyzer => "boolean"

def expected : Variable → Text
  | indent => "non-negative integer"
  | debug | reportClangAnalyzer => "boolean"

end Variable

inductive Failure
  | malformed (source : Variable) (raw : Text)
  /-- The count exceeds every number. -/
  | endless
  /-- A text cannot be that long. -/
  | tooLong
  deriving DecidableEq

def maxIndent : Nat := 536870888

def trueWords : List Text := ["true", "1", "yes", "on"]

def falseWords : List Text := ["false", "0", "no", "off"]

namespace Failure

def message : Failure → Text
  | malformed .indent raw =>
    Text.join ["Cannot coerce environment variable '", Variable.indent.name, "' value '",
      raw, "' to ", Variable.indent.expected]
  | malformed v raw =>
    Text.join ["Cannot coerce '", v.name, "' value '", raw, "' to ", v.expected,
      ". Expected one of: ", Text.joinWith ", " (trueWords ++ falseWords)]
  | endless => "Invalid count value: Infinity"
  | tooLong => "Invalid string length"

end Failure

def value? (env : Environment) (v : Variable) : Option Text :=
  (env.lookup v.name).filter (!·.isEmpty)

/-- A number of blanks: decimal digits with white space around them. They are read as a number
before they are found to be too many. -/
def readCount (raw : Text) : Except Failure Nat :=
  let digits := raw.trim
  if digits.isEmpty || !digits.all CodeUnit.isDigit then .error (.malformed .indent raw)
  else
    match Number.ofDecimal false (Text.digitsValue digits) 0 with
    | .integer n => if maxIndent < n then .error .tooLong else .ok n.toNat
    | _ => .error .endless

def readFlag (v : Variable) (raw : Text) : Except Failure Bool :=
  let word := raw.trim.small
  if trueWords.contains word then .ok true
  else if falseWords.contains word then .ok false
  else .error (.malformed v raw)

structure Overrides where
  indent : Option Nat := none
  debug : Option Bool := none
  reportClangAnalyzer : Option Bool := none
  deriving DecidableEq

def blanks (n : Nat) : Text := List.replicate n CodeUnit.space

def readWith {α : Type} (env : Environment) (read : Text → Except Failure α) (v : Variable) :
    Except Failure (Option α) :=
  match env.value? v with
  | none => .ok none
  | some raw => (read raw).map some

def overrides (env : Environment) : Except Failure Overrides := do
  let indent ← env.readWith readCount .indent
  let debug ← env.readWith (readFlag .debug) .debug
  let reportClangAnalyzer ← env.readWith (readFlag .reportClangAnalyzer) .reportClangAnalyzer
  return { indent, debug, reportClangAnalyzer }

end Environment

namespace Settings

/-- Settings that are given go before those of the environment, and these before the defaults. -/
def resolve (given : GivenSettings) (env : Environment) : Except Environment.Failure Settings := do
  let fromEnv ← env.overrides
  let defaults : Settings := {}
  return {
    indentBy :=
      match given.indentBy, fromEnv.indent with
      | some unit, _ => unit
      | none, some n => Environment.blanks n
      | none, none => defaults.indentBy
    debug := (given.debug.or fromEnv.debug).getD defaults.debug
    reportClangAnalyzer :=
      (given.reportClangAnalyzer.or fromEnv.reportClangAnalyzer).getD defaults.reportClangAnalyzer }

end Settings
end AnalysisProject
