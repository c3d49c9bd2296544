import Workflow.Task
import Workflow.Value.Text

/-! # Workflow.Task.Counter

A leaf that counts in the context and reports the count.
-/

namespace Workflow
namespace Counter

def defaultKey : String := "id"

/-- What the report shows besides the count, if the context has it. -/
def sharedKey : String := "sharedData"

def report (key : String) (count : Int64) : Option Value → String
  | some value => "Shared data: " ++ value.displayText ++ "===" ++ (Value.int count).displayText
  | none => key ++ " = " ++ (Value.int count).displayText

end Counter

/-- Adds one to the value under the key. -/
def Task.counter {σ : Domain} (name key : String) : Task σ :=
  .leaf name do
    Program.say (.info ("Executing task: " ++ name))
    let count := (← Program.scope).context.incremented key 1
    Program.modifyContext (·.increment key 1)
    let value? := (← Program.scope).context.get? Counter.sharedKey
    Program.say (.info (Counter.report key count value?))
    return .ok ()

end Workflow
