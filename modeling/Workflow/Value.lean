import Workflow.Double
import Workflow.Table

/-! # Workflow.Value

The values that a context holds, and the ways to look at one: `asInt?`, `asFloat?` and their like
answer for the kind they are named for, and an integer is also read as a float.
-/

namespace Workflow

inductive Value where
  | null
  | bool (value : Bool)
  | int (value : Int64)
  | float (value : Double)
  | text (value : String)
  | list (items : List Value)
  | map (table : Table Value)

instance : Inhabited Value := ⟨.null⟩

namespace Value

def asInt? : Value → Option Int64
  | .int i => some i
  | _ => none

def asFloat? : Value → Option Double
  | .float x => some x
  | .int i => some (Double.ofInt i.toInt)
  | _ => none

def asBool? : Value → Option Bool
  | .bool b => some b
  | _ => none

def asText? : Value → Option String
  | .text s => some s
  | _ => none

def asList? : Value → Option (List Value)
  | .list items => some items
  | _ => none

def asMap? : Value → Option (Table Value)
  | .map table => some table
  | _ => none

def isNull : Value → Bool
  | .null => true
  | _ => false

mutual

/-- Equality of values: the same kind and the same content, where floats are compared as numbers.
So a value that holds a NaN equals nothing, itself included. -/
def same : Value → Value → Bool
  | .null, .null => true
  | .bool a, .bool b => a == b
  | .int a, .int b => a == b
  | .float a, .float b => a.same b
  | .text a, .text b => a == b
  | .list a, .list b => sameItems a b
  | .map ⟨_, _, a⟩, .map ⟨_, _, b⟩ => sameRows a b
  | _, _ => false

def sameItems : List Value → List Value → Bool
  | [], [] => true
  | a :: as, b :: bs => a.same b && sameItems as bs
  | _, _ => false

def sameRows : {keys keys' : List String} → Row Value keys → Row Value keys' → Bool
  | _, _, .nil, .nil => true
  | k :: _, l :: _, .cons a as, .cons b bs => k == l && a.same b && sameRows as bs
  | _, _, _, _ => false

end

end Value

/-- Data that has a value of its own kind. -/
class ToValue (α : Type) where
  toValue : α → Value

export ToValue (toValue)

namespace ToValue

instance : ToValue Value := ⟨id⟩
instance : ToValue Bool := ⟨.bool⟩
instance : ToValue Int64 := ⟨.int⟩
instance : ToValue Int32 := ⟨fun i => .int i.toInt64⟩
instance : ToValue Double := ⟨.float⟩
instance : ToValue String := ⟨.text⟩
instance {α : Type} [ToValue α] : ToValue (List α) := ⟨fun items => .list (items.map toValue)⟩

end ToValue
end Workflow
