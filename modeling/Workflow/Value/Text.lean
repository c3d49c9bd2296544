import Workflow.Value.Json

/-! # Workflow.Value.Text

The text of a value in messages: a text is its own text, a list and a map are written as JSON.
-/

namespace Workflow
namespace Value

def floatText (x : Double) : String :=
  if x.isNaN then "NaN"
  else if x.isFinite then String.ofList (Double.Style.plain.text x)
  else if x.negative then "-inf"
  else "inf"

def displayText : Value → String
  | .null => "null"
  | .bool b => String.ofList (Json.boolChars b)
  | .int i => String.ofList (Digits.ofInt i.toInt)
  | .float x => floatText x
  | .text s => s
  | .list items => (Value.list items).jsonText
  | .map table => (Value.map table).jsonText

end Value
end Workflow
