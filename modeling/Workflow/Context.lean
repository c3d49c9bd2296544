import Workflow.Text.LeadingInt
import Workflow.Value.Json

/-! # Workflow.Context

The state that a run hands from task to task: values under text keys. `increment` counts in a
context: whatever stands under the key is read as an integer, and the sum is held within the 64-bit
integers.
-/

namespace Workflow

structure Context where
  values : Table Value

namespace Context

def empty : Context := ⟨Table.empty⟩

instance : Inhabited Context := ⟨empty⟩

def get? (c : Context) (key : String) : Option Value := c.values.get? key

def getInt? (c : Context) (key : String) : Option Int64 := (c.get? key).bind Value.asInt?

def getText? (c : Context) (key : String) : Option String := (c.get? key).bind Value.asText?

def getBool? (c : Context) (key : String) : Option Bool := (c.get? key).bind Value.asBool?

def contains (c : Context) (key : String) : Bool := c.values.contains key

def size (c : Context) : Nat := c.values.size

def isEmpty (c : Context) : Bool := c.values.isEmpty

def keys (c : Context) : List String := c.values.keys

/-- The context after the write. `exchange` answers with what stood under the key before, too. -/
def insert {α : Type} [ToValue α] (c : Context) (key : String) (value : α) : Context :=
  ⟨c.values.insert key (toValue value)⟩

def erase (c : Context) (key : String) : Context := ⟨c.values.erase key⟩

/-- The value that stood under the key before the write, and the context after it. -/
def exchange {α : Type} [ToValue α] (c : Context) (key : String) (value : α) :
    Option Value × Context :=
  let (old, values) := c.values.exchange key (toValue value)
  (old, ⟨values⟩)

/-- The value that stood under the key before it was erased, and the context after that. -/
def takeOut (c : Context) (key : String) : Option Value × Context :=
  let (old, values) := c.values.takeOut key
  (old, ⟨values⟩)

/-- Of two pairs with one key the later wins. -/
def ofList {α : Type} [ToValue α] (pairs : List (String × α)) : Context :=
  ⟨Table.ofList (pairs.map fun (key, value) => (key, toValue value))⟩

def same (a b : Context) : Bool := Value.sameRows a.values.row b.values.row

instance : ToValue Context := ⟨fun c => .map c.values⟩

/-- The integer that a value counts as. -/
def countOf : Option Value → Int64
  | some (.int i) => i
  | some (.float x) => x.truncate
  | some (.text s) => (leadingInt? s.toList).getD 0
  | _ => 0

def saturatingAdd (a b : Int64) : Int64 := Int64.ofIntClamp (a.toInt + b.toInt)

/-- The number that `increment` stores. -/
def incremented (c : Context) (key : String) (amount : Int64) : Int64 :=
  saturatingAdd (countOf (c.get? key)) amount

def increment (c : Context) (key : String) (amount : Int64) : Context :=
  c.insert key (c.incremented key amount)

def toJson (c : Context) : Json := .object (Value.rowToJson c.values.row)

/-- Only an object is a context. -/
def ofJson? : Json → Option Context
  | .object fields => some ⟨Table.ofList (Value.fieldsOfJson fields)⟩
  | _ => none

def ofText? (text : String) : Option Context := (Json.ofText? text).bind ofJson?

def jsonText (c : Context) : String := (Value.map c.values).jsonText

end Context
end Workflow
