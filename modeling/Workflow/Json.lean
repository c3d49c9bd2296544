import Workflow.Double
import Workflow.Table

/-! # Workflow.Json

JSON documents. The fields of an object are kept as they were written, in their order and with
repetitions; `canonical` puts them in the order of their keys and keeps the last one of each key,
as it does in all objects inside.
-/

namespace Workflow

inductive Json where
  | null
  | bool (value : Bool)
  | integer (value : Int)
  | double (value : Double)
  | string (text : String)
  | array (items : List Json)
  | object (fields : List (String × Json))

namespace Json

mutual

def canonical : Json → Json
  | .array items => .array (canonicalItems items)
  | .object fields => .object (Table.ofList (canonicalFields fields)).entries
  | .null => .null
  | .bool value => .bool value
  | .integer value => .integer value
  | .double value => .double value
  | .string text => .string text

def canonicalItems : List Json → List Json
  | [] => []
  | item :: items => item.canonical :: canonicalItems items

def canonicalFields : List (String × Json) → List (String × Json)
  | [] => []
  | (key, value) :: fields => (key, value.canonical) :: canonicalFields fields

end

theorem canonicalItems_eq (items : List Json) : canonicalItems items = items.map canonical := by
  induction items with
  | nil => rfl
  | cons item items ih => simp [canonicalItems, ih]

theorem canonicalFields_eq (fields : List (String × Json)) :
    canonicalFields fields = fields.map fun f => (f.1, f.2.canonical) := by
  induction fields with
  | nil => rfl
  | cons f fields ih => simp [canonicalFields, ih]

end Json
end Workflow
