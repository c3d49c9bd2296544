import Workflow.Text.Digits
import Workflow.Text.Literal

/-! # Workflow.Key

Keys of the common kinds for the cases of a switch, and their text in log records.
-/

namespace Workflow

inductive Key where
  | text (value : String)
  | int (value : Int64)
  | bool (value : Bool)
  | none
  | some (key : Key)
  deriving DecidableEq

namespace Key

def ofOption {α : Type} (key : α → Key) : Option α → Key
  | Option.none => none
  | Option.some a => some (key a)

def literal : Key → String
  | text value => Literal.quote value
  | int value => String.ofList (Digits.ofInt value.toInt)
  | bool value => if value then "true" else "false"
  | none => "None"
  | some key => "Some(" ++ key.literal ++ ")"

end Key
end Workflow
