import Workflow.Proofs.Table
import Workflow.Proofs.Value.Shape

/-! # Workflow.Proofs.Value.Place

Places in documents and in values: the way from the whole to a part of it, by the positions of items
and the keys of fields. Where a key stands twice in an object, the last field is in its place.

* `Value.at?_ofJson`: a value has in each place what its document has there.
* `Json.at?_canonical`: so does a document whose fields were put in order.
-/

namespace Workflow

/-- One step from a list to an item or from an object to a field. -/
inductive Step where
  | item (index : Nat)
  | field (key : String)

/-- The steps from the outside in. -/
abbrev Place := List Step

namespace Json

def child? : Json → Step → Option Json
  | .array items, .item index => items[index]?
  | .object fields, .field key => lastField? fields key
  | _, _ => none

def at? (json : Json) (place : Place) : Option Json := place.foldlM child? json

theorem child?_canonical (json : Json) (step : Step) :
    json.canonical.child? step = (json.child? step).map canonical := by
  cases json with
  | array items =>
    cases step with
    | item index => simp [canonical, child?, canonicalItems_eq]
    | field key => rfl
  | object fields =>
    cases step with
    | item index => rfl
    | field key =>
      simp only [canonical, child?]
      rw [Table.lastField?_entries, Table.get?_ofList, canonicalFields_eq, lastField?_map]
  | null | bool | integer | double | string => rfl

theorem at?_canonical (json : Json) (place : Place) :
    json.canonical.at? place = (json.at? place).map canonical := by
  induction place generalizing json with
  | nil => rfl
  | cons step place ih =>
    simp only [at?, List.foldlM_cons, Option.bind_eq_bind] at ih ⊢
    rw [child?_canonical]
    cases json.child? step with
    | none => rfl
    | some part => exact ih part

end Json

namespace Value

def child? : Value → Step → Option Value
  | .list items, .item index => items[index]?
  | .map table, .field key => table.get? key
  | _, _ => none

def at? (v : Value) (place : Place) : Option Value := place.foldlM child? v

theorem child?_ofJson (json : Json) (step : Step) :
    (ofJson json).child? step = (json.child? step).map ofJson := by
  cases json with
  | array items =>
    cases step with
    | item index => simp [ofJson, child?, Json.child?, itemsOfJson_eq]
    | field key => rfl
  | object fields =>
    cases step with
    | item index => rfl
    | field key =>
      simp only [ofJson, child?, Json.child?]
      rw [Table.get?_ofList, fieldsOfJson_eq, lastField?_map]
  | integer i =>
    simp only [ofJson, ofInteger, Json.child?]
    split <;> rfl
  | null | bool | double | string => rfl

theorem at?_ofJson (json : Json) (place : Place) :
    (ofJson json).at? place = (json.at? place).map ofJson := by
  induction place generalizing json with
  | nil => rfl
  | cons step place ih =>
    simp only [at?, Json.at?, List.foldlM_cons, Option.bind_eq_bind] at ih ⊢
    rw [child?_ofJson]
    cases json.child? step with
    | none => rfl
    | some part => exact ih part

end Value
end Workflow
