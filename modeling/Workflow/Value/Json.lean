import Workflow.Json.Printer
import Workflow.Json.Reader
import Workflow.Value

/-! # Workflow.Value.Json

Values as JSON documents. A float that is not finite becomes `null`. On the way back a number is an
integer where it is one of the 64-bit integers, and every other number is a float.

`Value.jsonChars` writes a value without building its document first.
-/

namespace Workflow
namespace Value

mutual

def toJson : Value → Json
  | .null => .null
  | .bool b => .bool b
  | .int i => .integer i.toInt
  | .float x => if x.isFinite then .double x else .null
  | .text s => .string s
  | .list items => .array (itemsToJson items)
  | .map ⟨_, _, row⟩ => .object (rowToJson row)

def itemsToJson : List Value → List Json
  | [] => []
  | item :: items => item.toJson :: itemsToJson items

def rowToJson : {keys : List String} → Row Value keys → List (String × Json)
  | _, .nil => []
  | key :: _, .cons value rest => (key, value.toJson) :: rowToJson rest

end

/-- An integer outside the 64-bit integers is read as a float. -/
def ofInteger (i : Int) : Value :=
  if Int64.minValue.toInt ≤ i ∧ i ≤ Int64.maxValue.toInt then .int (Int64.ofInt i)
  else .float (Double.ofInt i)

mutual

def ofJson : Json → Value
  | .null => .null
  | .bool b => .bool b
  | .integer i => ofInteger i
  | .double x => .float x
  | .string s => .text s
  | .array items => .list (itemsOfJson items)
  | .object fields => .map (Table.ofList (fieldsOfJson fields))

def itemsOfJson : List Json → List Value
  | [] => []
  | item :: items => ofJson item :: itemsOfJson items

def fieldsOfJson : List (String × Json) → List (String × Value)
  | [] => []
  | (key, value) :: fields => (key, ofJson value) :: fieldsOfJson fields

end

def ofText? (text : String) : Option Value := (Json.ofText? text).map ofJson

mutual

def jsonChars : Value → List Char
  | .null => "null".toList
  | .bool b => Json.boolChars b
  | .int i => Digits.ofInt i.toInt
  | .float x => Json.doubleChars x
  | .text s => Json.Quoted.write s
  | .list items => Json.bracketed (itemsJsonChars items)
  | .map ⟨_, _, row⟩ => Json.braced (rowJsonChars row)

def itemsJsonChars : List Value → List (List Char)
  | [] => []
  | item :: items => item.jsonChars :: itemsJsonChars items

def rowJsonChars : {keys : List String} → Row Value keys → List (List Char)
  | _, .nil => []
  | key :: _, .cons value rest => Json.fieldChars key value.jsonChars :: rowJsonChars rest

end

def jsonText (value : Value) : String := String.ofList value.jsonChars

end Value
end Workflow
