import Workflow.Proofs.Double.Text
import Workflow.Proofs.Json.Grammar
import Workflow.Proofs.Value.Shape

/-! # Workflow.Proofs.Value.Tree

The text of a value as a tree of the grammar. The reader takes every such text unless it is nested too
deep.

* `Double.literal`: the literal of a finite double, which is no integer.
* `Value.tree`, `Value.standsIn_jsonText`: the tree, and that it stands in the text.
* `Value.nesting_tree_le`, `Value.isSome_json?_tree`: it is nested as the value is, and its numbers are
  accepted.
-/

namespace Workflow

/-! ## Literals of doubles -/

namespace Double

/-- A literal that spells the double, if it is finite. -/
noncomputable def literal (x : Double) : Json.Literal :=
  if hfinite : x.isFinite = true then (exists_literal hfinite).choose else Json.Literal.ofInt 0

variable {x : Double}

theorem literal_spec (hfinite : x.isFinite = true) :
    x.literal.chars = Json.doubleChars x ∧
      (x.literal.fraction ≠ none ∨ x.literal.exponent ≠ none) ∧
      x.literal.spelling.double?.isSome = true := by
  have hspec := (exists_literal hfinite).choose_spec
  rw [literal, dif_pos hfinite, Json.doubleChars, if_pos hfinite]
  exact hspec

theorem not_integral_literal (hfinite : x.isFinite = true) : ¬ x.literal.Integral := fun h =>
  (literal_spec hfinite).2.1.elim (absurd h.fraction) (absurd h.exponent)

theorem isSome_number?_literal (hfinite : x.isFinite = true) :
    x.literal.spelling.number?.isSome = true := by
  obtain ⟨-, hparts, hdouble⟩ := literal_spec hfinite
  rw [Json.Spelling.number?_of_double, Option.isSome_map, hdouble]
  rintro ⟨hfraction, hexponent, -⟩
  refine hparts.elim (absurd (x.literal.getD_fraction_eq_nil.1 hfraction)) (absurd ?_)
  simpa [Json.Literal.spelling] using hexponent

end Double

/-! ## The tree -/

namespace Value

variable {v : Value}

mutual

/-- The text of the value, as a tree. -/
noncomputable def tree : Value → Json.Written
  | .null => .null
  | .bool b => .bool b
  | .int i => .number (.ofInt i.toInt)
  | .float x => if x.isFinite then .number x.literal else .null
  | .text s => .string s
  | .list items => .array (treesOfItems items)
  | .map ⟨_, _, row⟩ => .object (treesOfRow row)

noncomputable def treesOfItems : List Value → List Json.Written
  | [] => []
  | item :: items => item.tree :: treesOfItems items

noncomputable def treesOfRow : {keys : List String} → Row Value keys → List (String × Json.Written)
  | _, .nil => []
  | key :: _, .cons value rest => (key, value.tree) :: treesOfRow rest

end

theorem treesOfItems_eq (items : List Value) : treesOfItems items = items.map tree := by
  induction items with
  | nil => rfl
  | cons item items ih => simp [treesOfItems, ih]

theorem treesOfRow_eq {keys : List String} (row : Row Value keys) :
    treesOfRow row = row.entries.map fun e => (e.1, e.2.tree) := by
  induction row with
  | nil => rfl
  | cons value rest ih => simp [treesOfRow, Row.entries, ih]

theorem tree_map (table : Table Value) :
    (map table).tree = .object (table.entries.map fun e => (e.1, e.2.tree)) :=
  congrArg Json.Written.object (treesOfRow_eq table.row)

theorem spells_tree (v : Value) : v.tree.Spells v.jsonChars := by
  induction v with
  | null => exact .null
  | bool b => exact .bool b
  | int i =>
    rw [tree, jsonChars, ← Json.Literal.chars_ofInt]
    exact .number _
  | float x =>
    rw [tree, jsonChars]
    split
    case isTrue hfinite =>
      rw [← (Double.literal_spec hfinite).1]
      exact .number _
    case isFalse hfinite =>
      rw [Json.doubleChars, if_neg hfinite]
      exact .null
  | text s => exact .string (Json.Quoted.marks_escape s.toList)
  | list items ih =>
    rw [tree, jsonChars, treesOfItems_eq, itemsJsonChars_eq]
    exact .array (Json.listed_commaSeparated ih)
  | map table ih =>
    rw [tree_map, jsonChars_map]
    exact .object (Json.listed_commaSeparated fun e he => Json.fieldSpells_fieldChars (ih e he) e.1)

theorem standsIn_jsonText (v : Value) : v.tree.StandsIn v.jsonText :=
  ⟨[], v.jsonChars, [], Json.blank_nil, v.spells_tree, Json.blank_nil, by simp [jsonText]⟩

theorem nesting_tree_le {n : Nat} : v.tree.nesting ≤ n ↔ v.nesting ≤ n := by
  induction v generalizing n with
  | null | bool | int | text => rfl
  | float x =>
    rw [tree]
    split <;> rfl
  | list items ih =>
    cases n with
    | zero => exact iff_of_false (Nat.not_succ_le_zero _) (Nat.not_succ_le_zero _)
    | succ n =>
      rw [nesting_list_le, tree, Json.Written.nesting, Nat.add_le_add_iff_right, treesOfItems_eq,
        Json.Written.nestingOfItems_le, List.forall_mem_map]
      exact forall₂_congr fun item hitem => ih item hitem
  | map table ih =>
    cases n with
    | zero => exact iff_of_false (Nat.not_succ_le_zero _) (Nat.not_succ_le_zero _)
    | succ n =>
      rw [nesting_map_le, tree_map, Json.Written.nesting, Nat.add_le_add_iff_right,
        Json.Written.nestingOfFields_le, List.forall_mem_map]
      exact forall₂_congr fun e he => ih e he

/-- Every number in the text is accepted. -/
theorem isSome_json?_tree (v : Value) : v.tree.json?.isSome = true := by
  induction v with
  | null | bool | text => rfl
  | int i =>
    rw [tree, Json.Written.json?, Json.Literal.number?_of_integral (Json.Literal.integral_ofInt i)]
    rfl
  | float x =>
    rw [tree]
    split
    case isTrue hfinite => exact x.isSome_number?_literal hfinite
    case isFalse => rfl
  | list items ih =>
    rw [tree, Json.Written.json?, Option.isSome_map, Json.Written.isSome_itemsJson?_iff,
      treesOfItems_eq, List.forall_mem_map]
    exact ih
  | map table ih =>
    rw [tree_map, Json.Written.json?, Option.isSome_map, Json.Written.isSome_fieldsJson?_iff,
      List.forall_mem_map]
    exact ih

end Value
end Workflow
