import Workflow.Demo

/-! # Workflow.Main

The command: runs the demo, with its output on standard output and its log on standard error.
-/

namespace Workflow

def Severity.label : Severity → String
  | .debug => "DEBUG"
  | .info => "INFO"
  | .error => "ERROR"

def showReport (report : Demo.Report) : IO UInt32 := do
  for record in report.records do
    IO.eprintln (record.severity.label ++ " " ++ record.text)
  for line in report.output do
    IO.println line
  return if report.succeeded then 0 else 1

end Workflow

def main : IO UInt32 := Workflow.showReport Workflow.Demo.result
