import Workflow.Proofs.Table
import Workflow.Proofs.Value.Shape

/-! # Workflow.Proofs.Value.Exchange

Values taken to JSON documents and back. A document does not say which kind of value a part of it
was; the kinds are told apart by its shape alone. All come back as they were but floats that are not
finite, for which a document has null.

* `Value.settled`: the value with null in the place of these.
* `Value.ofJson_toJson`: what comes back is the settled value.
* `documents_keep_contexts`: contexts, which come back from an object only.
-/

namespace Workflow
namespace Value

mutual

/-- The value with null in the place of every float in it that is not finite. -/
def settled : Value → Value
  | .null => .null
  | .bool b => .bool b
  | .int i => .int i
  | .float x => if x.isFinite then .float x else .null
  | .text s => .text s
  | .list items => .list (settledItems items)
  | .map ⟨keys, increase, row⟩ => .map ⟨keys, increase, settledRow row⟩

def settledItems : List Value → List Value
  | [] => []
  | item :: items => item.settled :: settledItems items

def settledRow : {keys : List String} → Row Value keys → Row Value keys
  | _, .nil => .nil
  | _, .cons value rest => .cons value.settled (settledRow rest)

end

/-- No float in the value is infinite or a NaN. -/
def Finite (v : Value) : Prop := ∀ x, Occurs (.float x) v → x.isFinite = true

theorem settledItems_eq (items : List Value) : settledItems items = items.map settled := by
  induction items with
  | nil => rfl
  | cons item items ih => simp [settledItems, ih]

theorem settledRow_eq {keys : List String} (row : Row Value keys) :
    settledRow row = row.map settled := by
  induction row with
  | nil => rfl
  | cons value rest ih => rw [settledRow, Row.map, ih]

theorem settled_map (table : Table Value) :
    (map table).settled = .map (table.mapValues settled) :=
  congrArg (fun row => map ⟨table.keys, table.keys_increase, row⟩) (settledRow_eq table.row)

theorem settled_of_finite {v : Value} (h : v.Finite) : v.settled = v := by
  induction v with
  | null | bool | int | text => rfl
  | float x => simp [settled, h x .self]
  | list items ih =>
    have hitems : items.map settled = items.map id :=
      List.map_congr_left fun item hitem => ih item hitem fun x hx => h x (.item hitem hx)
    simp [settled, settledItems_eq, hitems]
  | map table ih =>
    have hentries : table.entries.map (fun e => (e.1, e.2.settled)) = table.entries.map id :=
      List.map_congr_left fun e he => by
        rw [ih e he fun x hx => h x (.entry he hx)]
        rfl
    have htable : table.mapValues settled = table := Table.eq_of_entries (by simp [hentries])
    rw [settled_map, htable]

theorem finite_settled (v : Value) : v.settled.Finite := by
  induction v with
  | null | bool | int | text =>
    intro x h
    cases h
  | float y =>
    intro x h
    simp only [settled] at h
    split at h
    · cases h
      assumption
    · cases h
  | list items ih =>
    intro x h
    rcases occurs_list.1 h with heq | ⟨item, hitem, h⟩
    · cases heq
    · rw [settledItems_eq] at hitem
      obtain ⟨first, hfirst, rfl⟩ := List.exists_of_mem_map hitem
      exact ih first hfirst x h
  | map table ih =>
    intro x h
    rw [settled_map] at h
    rcases occurs_map.1 h with heq | ⟨e, he, h⟩
    · cases heq
    · rw [Table.entries_mapValues] at he
      obtain ⟨first, hfirst, rfl⟩ := List.exists_of_mem_map he
      exact ih first hfirst x h

/-- Every 64-bit integer comes back as that integer. -/
theorem ofInteger_toInt (i : Int64) : ofInteger i.toInt = .int i := by
  have hle : Int64.minValue.toInt ≤ i.toInt ∧ i.toInt ≤ Int64.maxValue.toInt :=
    ⟨i.minValue_le_toInt, i.toInt_le⟩
  rw [ofInteger, if_pos hle, Int64.ofInt_toInt]

theorem ofJson_toJson (v : Value) : ofJson v.toJson = v.settled := by
  induction v with
  | null | bool | text => rfl
  | int i => exact ofInteger_toInt i
  | float x =>
    simp only [toJson, settled]
    split <;> rfl
  | list items ih =>
    simp only [toJson, ofJson, settled, itemsToJson_eq, itemsOfJson_eq, settledItems_eq,
      List.map_map]
    exact congrArg list (List.map_congr_left ih)
  | map table ih =>
    rw [toJson_map, ofJson, settled_map, ← Table.ofList_map_entries, fieldsOfJson_eq, List.map_map]
    refine congrArg (fun pairs => map (Table.ofList pairs)) (List.map_congr_left fun e he => ?_)
    simp only [Function.comp, ih e he]

end Value

namespace Context

/-- The context with null in the place of every float in it that is not finite. -/
def settled (c : Context) : Context := ⟨c.values.mapValues Value.settled⟩

theorem toJson_eq (c : Context) :
    c.toJson = .object (c.values.entries.map fun e => (e.1, e.2.toJson)) :=
  Value.toJson_map c.values

theorem toValue_settled (c : Context) : toValue c.settled = (toValue c).settled :=
  (Value.settled_map c.values).symm

theorem finite_settled (c : Context) : (toValue c.settled).Finite := by
  rw [toValue_settled]
  exact Value.finite_settled (toValue c)

variable {c : Context}

theorem settled_of_finite (h : (toValue c).Finite) : c.settled = c := by
  have hvalue : toValue c.settled = toValue c := by rw [toValue_settled, Value.settled_of_finite h]
  exact congrArg Context.mk (Value.map.inj hvalue)

theorem ofJson?_toJson (c : Context) : ofJson? c.toJson = some c.settled := by
  have hvalue : Value.ofJson c.toJson = toValue c.settled := by
    rw [toValue_settled, ← Value.ofJson_toJson]
    rfl
  exact congrArg (fun table => some (Context.mk table)) (Value.map.inj hvalue)

end Context

/-- What is read back from a context's document, which is an object with its keys, is the settled
context. So reading back a second time changes nothing, and the first time changes nothing just where
all floats are finite. -/
theorem documents_keep_contexts (c : Context) :
    (∃ fields, c.toJson = .object fields ∧ fields.map Prod.fst = c.keys) ∧
    Context.ofJson? c.toJson = some c.settled ∧
    c.settled.keys = c.keys ∧
    (∀ c', Context.ofJson? c.toJson = some c' → Context.ofJson? c'.toJson = some c') ∧
    (Context.ofJson? c.toJson = some c ↔ (toValue c).Finite) := by
  have hread : Context.ofJson? c.toJson = some c.settled := c.ofJson?_toJson
  refine ⟨⟨_, c.toJson_eq, ?_⟩, hread, rfl, fun c' hc' => ?_, ?_⟩
  · simp [Context.keys, Table.keys_eq]
  · obtain rfl : c.settled = c' := Option.some.inj (hread.symm.trans hc')
    rw [Context.ofJson?_toJson, Context.settled_of_finite c.finite_settled]
  · rw [hread, Option.some.injEq]
    refine ⟨fun heq => ?_, Context.settled_of_finite⟩
    rw [← heq]
    exact c.finite_settled

/-! Floats that are whole numbers, and one that is no number, inside of a list in a map. -/

def one : Double := ⟨0x3ff0000000000000⟩

def minusZero : Double := ⟨0x8000000000000000⟩

def readings (lost : Value) : Context :=
  ((Context.empty.insert "whole" one).insert "least" Int64.minValue).insert "inner"
    (Context.empty.insert "list" [lost, .float minusZero, .int 1])

theorem readings_come_back :
    Context.ofJson? (readings (.float .nan)).toJson = some (readings .null) ∧
    Context.ofJson? (readings .null).toJson = some (readings .null) := by
  obtain ⟨-, hread, -, hagain, -⟩ := documents_keep_contexts (readings (.float .nan))
  have hsettled : (readings (.float .nan)).settled = readings .null := rfl
  rw [hsettled] at hread
  exact ⟨hread, hagain _ hread⟩

end Workflow
