import Workflow.Double.Text
import Workflow.Json
import Workflow.Json.Quoted

/-! # Workflow.Json.Printer

The compact text of a JSON document: no blanks, the fields in their order. A double that is not
finite has no JSON form and is written as `null`.
-/

namespace Workflow
namespace Json

def commaSeparated (parts : List (List Char)) : List Char := [','].intercalate parts

theorem commaSeparated_cons_cons (part next : List Char) (parts : List (List Char)) :
    commaSeparated (part :: next :: parts) = part ++ ',' :: commaSeparated (next :: parts) := by
  simp [commaSeparated, List.intercalate]

theorem commaSeparated_singleton (part : List Char) : commaSeparated [part] = part := by
  simp [commaSeparated, List.intercalate]

def bracketed (parts : List (List Char)) : List Char := '[' :: (commaSeparated parts ++ [']'])

def braced (parts : List (List Char)) : List Char := '\x7b' :: (commaSeparated parts ++ ['\x7d'])

def fieldChars (key : String) (value : List Char) : List Char := Quoted.write key ++ ':' :: value

def boolChars (b : Bool) : List Char := if b then "true".toList else "false".toList

def doubleChars (x : Double) : List Char :=
  if x.isFinite then Double.Style.json.text x else "null".toList

mutual

def chars : Json → List Char
  | .null => "null".toList
  | .bool b => boolChars b
  | .integer i => Digits.ofInt i
  | .double x => doubleChars x
  | .string text => Quoted.write text
  | .array items => bracketed (itemChars items)
  | .object fields => braced (fieldsChars fields)

def itemChars : List Json → List (List Char)
  | [] => []
  | item :: items => item.chars :: itemChars items

def fieldsChars : List (String × Json) → List (List Char)
  | [] => []
  | (key, value) :: fields => fieldChars key value.chars :: fieldsChars fields

end

theorem itemChars_eq (items : List Json) : itemChars items = items.map chars := by
  induction items with
  | nil => rfl
  | cons item items ih => simp [itemChars, ih]

theorem fieldsChars_eq (fields : List (String × Json)) :
    fieldsChars fields = fields.map fun f => fieldChars f.1 f.2.chars := by
  induction fields with
  | nil => rfl
  | cons f fields ih => simp [fieldsChars, ih]

def text (json : Json) : String := String.ofList json.chars

end Json
end Workflow
