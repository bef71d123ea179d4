import TreeSyntax.CommandLine.Arguments
import TreeSyntax.Text.Styled

/-!
# Reports of checked files

The report of a run has one entry for each input file, in the order of the inputs.
-/

namespace TreeSyntax.CommandLine

structure FileReport where
  file : String
  outcome : Outcome
  deriving DecidableEq, Repr

namespace FileReport

/-- The members of the outcome follow the name of the file. -/
def toJson (report : FileReport) : Json :=
  .object (("file", .string report.file) :: report.outcome.toMembers)

def line (coloured : Bool) (report : FileReport) : String :=
  if report.outcome.isValid then Text.styled coloured .green "✔" ++ " " ++ report.file ++ "\n"
  else
    Text.styled coloured .red "✘" ++ " " ++ report.file ++ ": " ++
      Text.styled coloured .yellow report.outcome.text ++ "\n"

end FileReport

def invalidCount (reports : List FileReport) : Nat :=
  (reports.filter fun report => !report.outcome.isValid).length

def summaryLine (reports : List FileReport) : String :=
  s!"{reports.length} checked, {invalidCount reports} invalid"

def textReport (coloured : Bool) (reports : List FileReport) : String :=
  String.join (reports.map (FileReport.line coloured)) ++ summaryLine reports

def reportsJson (reports : List FileReport) : Json :=
  .array (reports.map FileReport.toJson)

def report (format : ReportFormat) (coloured : Bool) (reports : List FileReport) : String :=
  match format with
  | .text => textReport coloured reports
  | .json => (reportsJson reports).indented

end TreeSyntax.CommandLine
