import Workflow.Context

/-! # Workflow.Proofs.Value.Shape

Values as trees: an induction over them, the values that occur in one, and how deep they stand.

* `Value.induction`: what holds of a list if it holds of its items, of a map if it holds of its
  values, and of all other values, holds of every value.
* `toJson_map`, `jsonChars_map`: documents and texts of maps, read off their entries.
* `Value.Occurs`: the values in a value, itself included; `occurs_list` and `occurs_map` for one
  level.
* `Value.nesting`: how many lists and maps stand in one another.
-/

namespace Workflow
namespace Value

/-! ## Induction -/

@[induction_eliminator]
theorem induction {P : Value → Prop} (null : P .null) (bool : ∀ b, P (.bool b))
    (int : ∀ i, P (.int i)) (float : ∀ x, P (.float x)) (text : ∀ s, P (.text s))
    (list : ∀ items, (∀ item ∈ items, P item) → P (.list items))
    (map : ∀ table : Table Value, (∀ e ∈ table.entries, P e.2) → P (.map table)) : ∀ v, P v
  | .null => null
  | .bool b => bool b
  | .int i => int i
  | .float x => float x
  | .text s => text s
  | .list items => list items fun item _hitem =>
    induction null bool int float text list map item
  | .map table => map table fun e _he => induction null bool int float text list map e.2
termination_by v => sizeOf v
decreasing_by
  · have := List.sizeOf_lt_of_mem _hitem
    simp only [Value.list.sizeOf_spec]
    omega
  · have := Table.sizeOf_lt_of_mem _he
    simp only [Value.map.sizeOf_spec]
    omega

/-! ## Items and rows -/

variable {keys : List String}

theorem itemsToJson_eq (items : List Value) : itemsToJson items = items.map toJson := by
  induction items with
  | nil => rfl
  | cons item items ih => simp [itemsToJson, ih]

theorem rowToJson_eq (row : Row Value keys) :
    rowToJson row = row.entries.map fun e => (e.1, e.2.toJson) := by
  induction row with
  | nil => rfl
  | cons value rest ih => simp [rowToJson, Row.entries, ih]

theorem toJson_map (table : Table Value) :
    (map table).toJson = .object (table.entries.map fun e => (e.1, e.2.toJson)) :=
  congrArg Json.object (rowToJson_eq table.row)

theorem itemsOfJson_eq (items : List Json) : itemsOfJson items = items.map ofJson := by
  induction items with
  | nil => rfl
  | cons item items ih => simp [itemsOfJson, ih]

theorem fieldsOfJson_eq (fields : List (String × Json)) :
    fieldsOfJson fields = fields.map fun f => (f.1, ofJson f.2) := by
  induction fields with
  | nil => rfl
  | cons f fields ih => simp [fieldsOfJson, ih]

theorem itemsJsonChars_eq (items : List Value) : itemsJsonChars items = items.map jsonChars := by
  induction items with
  | nil => rfl
  | cons item items ih => simp [itemsJsonChars, ih]

theorem rowJsonChars_eq (row : Row Value keys) :
    rowJsonChars row = row.entries.map fun e => Json.fieldChars e.1 e.2.jsonChars := by
  induction row with
  | nil => rfl
  | cons value rest ih => simp [rowJsonChars, Row.entries, ih]

theorem jsonChars_map (table : Table Value) : (map table).jsonChars =
    Json.braced (table.entries.map fun e => Json.fieldChars e.1 e.2.jsonChars) :=
  congrArg Json.braced (rowJsonChars_eq table.row)

/-! ## Occurrences -/

/-- The value stands somewhere in the other, or is it. -/
inductive Occurs (v : Value) : Value → Prop where
  | self : Occurs v v
  | item {items : List Value} {w : Value} : w ∈ items → Occurs v w → Occurs v (.list items)
  | entry {table : Table Value} {e : String × Value} :
      e ∈ table.entries → Occurs v e.2 → Occurs v (.map table)

variable {u v : Value} {items : List Value} {table : Table Value}

theorem occurs_list :
    u.Occurs (.list items) ↔ u = .list items ∨ ∃ item ∈ items, u.Occurs item := by
  constructor
  · intro h
    cases h with
    | self => exact .inl rfl
    | item hitem h => exact .inr ⟨_, hitem, h⟩
  · rintro (rfl | ⟨item, hitem, h⟩)
    · exact .self
    · exact .item hitem h

theorem occurs_map :
    u.Occurs (.map table) ↔ u = .map table ∨ ∃ e ∈ table.entries, u.Occurs e.2 := by
  constructor
  · intro h
    cases h with
    | self => exact .inl rfl
    | entry he h => exact .inr ⟨_, he, h⟩
  · rintro (rfl | ⟨e, he, h⟩)
    · exact .self
    · exact .entry he h

/-! ## Nesting -/

mutual

/-- How many lists and maps stand in one another at most, the value itself counted. -/
def nesting : Value → Nat
  | .null | .bool _ | .int _ | .float _ | .text _ => 0
  | .list items => nestingOfItems items + 1
  | .map ⟨_, _, row⟩ => nestingOfRow row + 1

def nestingOfItems : List Value → Nat
  | [] => 0
  | item :: items => max item.nesting (nestingOfItems items)

def nestingOfRow : {keys : List String} → Row Value keys → Nat
  | _, .nil => 0
  | _, .cons value rest => max value.nesting (nestingOfRow rest)

end

theorem nestingOfItems_le {n : Nat} :
    nestingOfItems items ≤ n ↔ ∀ item ∈ items, item.nesting ≤ n := by
  induction items with
  | nil => simp [nestingOfItems]
  | cons item items ih => rw [nestingOfItems, Nat.max_le, ih, List.forall_mem_cons]

theorem nestingOfRow_le {n : Nat} {row : Row Value keys} :
    nestingOfRow row ≤ n ↔ ∀ e ∈ row.entries, e.2.nesting ≤ n := by
  induction row with
  | nil => simp [nestingOfRow, Row.entries]
  | cons value rest ih => rw [nestingOfRow, Nat.max_le, ih, Row.entries, List.forall_mem_cons]

theorem nesting_list_le {n : Nat} :
    (Value.list items).nesting ≤ n + 1 ↔ ∀ item ∈ items, item.nesting ≤ n := by
  rw [nesting, Nat.add_le_add_iff_right, nestingOfItems_le]

theorem nesting_map_le {n : Nat} :
    (Value.map table).nesting ≤ n + 1 ↔ ∀ e ∈ table.entries, e.2.nesting ≤ n :=
  Nat.add_le_add_iff_right.trans nestingOfRow_le

end Value
end Workflow
