import Workflow.Proofs.Value.Exchange
import Workflow.Proofs.Value.Tree

/-! # Workflow.Proofs.Value.RoundTrip

Values written as JSON text and read again. Without floats, and nested no deeper than the reader
goes, a value comes back as it was.

* `Value.chars_toJson`: the text of a value is that of its document.
* `Value.Legible`: the values that come back; `legible_list`, `legible_map` and `Legible.insert` for
  one level.
* `Value.Legible.ofText?_jsonText`: the text of such a value is read as its document.
* `texts_keep_contexts`: contexts and values, read straight or by way of a document.
-/

namespace Workflow
namespace Value

variable {items : List Value} {table : Table Value}

/-! ## The text -/

theorem chars_toJson (v : Value) : v.toJson.chars = v.jsonChars := by
  induction v with
  | null | bool | int | text => rfl
  | float x =>
    simp only [toJson, jsonChars, Json.doubleChars]
    split
    case isTrue hfinite => simp [Json.chars, Json.doubleChars, hfinite]
    case isFalse => rfl
  | list items ih =>
    simp only [toJson, jsonChars, Json.chars, itemsToJson_eq, Json.itemChars_eq, itemsJsonChars_eq,
      List.map_map]
    exact congrArg Json.bracketed (List.map_congr_left ih)
  | map table ih =>
    rw [toJson_map, jsonChars_map, Json.chars, Json.fieldsChars_eq, List.map_map]
    refine congrArg Json.braced (List.map_congr_left fun e he => ?_)
    simp only [Function.comp, ih e he]

/-! ## The document -/

/-- The fields of its document are in their order already. -/
theorem canonical_toJson (v : Value) : v.toJson.canonical = v.toJson := by
  induction v with
  | null | bool | int | text => rfl
  | float x =>
    simp only [toJson]
    split <;> rfl
  | list items ih =>
    simp only [toJson, Json.canonical, itemsToJson_eq, Json.canonicalItems_eq, List.map_map]
    exact congrArg Json.array (List.map_congr_left ih)
  | map table ih =>
    have hfields : Json.canonicalFields (table.entries.map fun e => (e.1, e.2.toJson)) =
        table.entries.map fun e => (e.1, e.2.toJson) := by
      rw [Json.canonicalFields_eq, List.map_map]
      refine List.map_congr_left fun e he => ?_
      simp only [Function.comp, ih e he]
    rw [toJson_map, Json.canonical, hfields, Table.ofList_map_entries, Table.entries_mapValues]

/-! ## What is read back from its text -/

/-- No float stands in the value. -/
def FloatFree (v : Value) : Prop := ∀ x, ¬ Occurs (.float x) v

theorem FloatFree.finite {v : Value} (h : v.FloatFree) : v.Finite :=
  fun x hoccurs => absurd hoccurs (h x)

theorem floatFree_list : (Value.list items).FloatFree ↔ ∀ item ∈ items, item.FloatFree := by
  constructor
  · intro h item hitem x hoccurs
    exact h x (.item hitem hoccurs)
  · intro h x hoccurs
    rcases occurs_list.1 hoccurs with heq | ⟨item, hitem, hoccurs⟩
    · cases heq
    · exact h item hitem x hoccurs

theorem floatFree_map : (Value.map table).FloatFree ↔ ∀ e ∈ table.entries, e.2.FloatFree := by
  constructor
  · intro h e he x hoccurs
    exact h x (.entry he hoccurs)
  · intro h x hoccurs
    rcases occurs_map.1 hoccurs with heq | ⟨e, he, hoccurs⟩
    · cases heq
    · exact h e he x hoccurs

/-- A value without floats, in which lists and maps stand in one another at most `depth` deep. -/
structure Legible (depth : Nat) (v : Value) : Prop where
  floatFree : v.FloatFree
  nesting_le : v.nesting ≤ depth

theorem legible_null (depth : Nat) : Value.null.Legible depth :=
  ⟨(fun _ h => nomatch h), Nat.zero_le depth⟩

theorem legible_int (depth : Nat) (i : Int64) : (Value.int i).Legible depth :=
  ⟨(fun _ h => nomatch h), Nat.zero_le depth⟩

theorem legible_text (depth : Nat) (s : String) : (Value.text s).Legible depth :=
  ⟨(fun _ h => nomatch h), Nat.zero_le depth⟩

theorem legible_list {depth : Nat} :
    (Value.list items).Legible (depth + 1) ↔ ∀ item ∈ items, item.Legible depth := by
  constructor
  · intro ⟨hfree, hnesting⟩ item hitem
    exact ⟨floatFree_list.1 hfree item hitem, nesting_list_le.1 hnesting item hitem⟩
  · intro h
    exact ⟨floatFree_list.2 fun item hitem => (h item hitem).floatFree,
      nesting_list_le.2 fun item hitem => (h item hitem).nesting_le⟩

theorem legible_map {depth : Nat} :
    (Value.map table).Legible (depth + 1) ↔ ∀ e ∈ table.entries, e.2.Legible depth := by
  constructor
  · intro ⟨hfree, hnesting⟩ e he
    exact ⟨floatFree_map.1 hfree e he, nesting_map_le.1 hnesting e he⟩
  · intro h
    exact ⟨floatFree_map.2 fun e he => (h e he).floatFree,
      nesting_map_le.2 fun e he => (h e he).nesting_le⟩

theorem legible_empty (depth : Nat) : (Value.map Table.empty).Legible (depth + 1) :=
  legible_map.2 nofun

theorem Legible.insert {depth : Nat} (h : (Value.map table).Legible (depth + 1)) (key : String)
    {value : Value} (hvalue : value.Legible depth) :
    (Value.map (table.insert key value)).Legible (depth + 1) := by
  refine legible_map.2 fun e he => ?_
  rw [Table.entries_insert] at he
  rcases Table.mem_insertEntry he with rfl | he
  · exact hvalue
  · exact legible_map.1 h e he

/-! ## Reading -/

/-- Without floats the text stands for the document of the value. -/
theorem FloatFree.json?_tree {v : Value} (h : v.FloatFree) : v.tree.json? = some v.toJson := by
  induction v with
  | null | bool | text => rfl
  | int i =>
    rw [tree, Json.Written.json?, Json.Literal.number?_of_integral (Json.Literal.integral_ofInt i),
      Json.Literal.integer_ofInt, toJson]
  | float x => exact absurd .self (h x)
  | list items ih =>
    rw [floatFree_list] at h
    rw [tree, toJson, Json.Written.json?, treesOfItems_eq, itemsToJson_eq,
      Json.Written.itemsJson?_map fun item hitem => ih item hitem (h item hitem), Option.map_some]
  | map table ih =>
    rw [floatFree_map] at h
    rw [tree_map, toJson_map, Json.Written.json?,
      Json.Written.fieldsJson?_map fun e he => ih e he (h e he), Option.map_some]

variable {v : Value}

theorem Legible.ofText?_jsonText (h : v.Legible Json.Reader.maxDepth) :
    Json.ofText? v.jsonText = some v.toJson := by
  rw [v.standsIn_jsonText.ofText?, if_pos (nesting_tree_le.2 h.nesting_le), h.floatFree.json?_tree]

theorem Legible.document?_jsonText (h : v.Legible Json.Reader.maxDepth) :
    Json.document? v.jsonText = some v.toJson := by
  rw [Json.document?, h.ofText?_jsonText, Option.map_some, canonical_toJson]

theorem Legible.ofJson_toJson {depth : Nat} (h : v.Legible depth) : ofJson v.toJson = v := by
  rw [Value.ofJson_toJson, settled_of_finite h.floatFree.finite]

end Value

namespace Context

def Legible (c : Context) : Prop := (toValue c).Legible Json.Reader.maxDepth

variable {c : Context}

theorem Legible.ofJson?_toJson (h : c.Legible) : ofJson? c.toJson = some c := by
  rw [Context.ofJson?_toJson, settled_of_finite h.floatFree.finite]

end Context

/-- Values and contexts come back from their text, read straight or by way of a document. So no two
of them have the same text. -/
theorem texts_keep_contexts :
    (∀ v : Value, v.Legible Json.Reader.maxDepth →
      v.toJson.text = v.jsonText ∧
      Value.ofText? v.jsonText = some v ∧
      (Json.document? v.jsonText).map Value.ofJson = some v) ∧
    (∀ c : Context, c.Legible →
      c.toJson.text = c.jsonText ∧
      Context.ofText? c.jsonText = some c ∧
      (Json.document? c.jsonText).bind Context.ofJson? = some c) ∧
    (∀ v w : Value, v.Legible Json.Reader.maxDepth → w.Legible Json.Reader.maxDepth →
      v.jsonText = w.jsonText → v = w) ∧
    (∀ c d : Context, c.Legible → d.Legible → c.jsonText = d.jsonText → c = d) := by
  have hvalue (v : Value) (h : v.Legible Json.Reader.maxDepth) :
      Value.ofText? v.jsonText = some v := by
    rw [Value.ofText?, h.ofText?_jsonText, Option.map_some, h.ofJson_toJson]
  have hcontext (c : Context) (h : c.Legible) : Context.ofText? c.jsonText = some c := by
    have hread : Json.ofText? c.jsonText = some c.toJson := Value.Legible.ofText?_jsonText h
    rw [Context.ofText?, hread, Option.bind_some, h.ofJson?_toJson]
  refine ⟨fun v h => ⟨?_, hvalue v h, ?_⟩, fun c h => ⟨?_, hcontext c h, ?_⟩, fun v w hv hw heq => ?_,
    fun c d hc hd heq => ?_⟩
  · exact congrArg String.ofList v.chars_toJson
  · rw [h.document?_jsonText, Option.map_some, h.ofJson_toJson]
  · exact congrArg String.ofList (toValue c).chars_toJson
  · have hread : Json.document? c.jsonText = some c.toJson := Value.Legible.document?_jsonText h
    rw [hread, Option.bind_some, h.ofJson?_toJson]
  · exact Option.some.inj ((hvalue v hv).symm.trans (heq ▸ hvalue w hw))
  · exact Option.some.inj ((hcontext c hc).symm.trans (heq ▸ hcontext d hd))

/-! A key of two characters that are escaped, a control and a character beyond the sixteen-bit ones,
the least integer, and nothing in a list and in a map. -/

def notes : Context :=
  ((Context.empty.insert "\"\\" "\x01𝄞").insert "least" Int64.minValue).insert "nothing"
    (Context.empty.insert "in" [.list [], .map Table.empty, Value.null])

def notesText : String :=
  "\x7b\"\\\"\\\\\":\"\\u0001𝄞\",\"least\":-9223372036854775808,\"nothing\":\x7b\"in\":[[],\x7b\x7d,null]\x7d\x7d"

theorem notes_legible : notes.Legible := by
  have hlist : (Value.list [.list [], .map Table.empty, .null]).Legible 125 := by
    simp [Value.legible_list, Value.legible_empty, Value.legible_null]
  have hinner := (Value.legible_empty 125).insert "in" hlist
  have houter := ((Value.legible_empty 126).insert "\"\\" (Value.legible_text 126 "\x01𝄞")).insert
    "least" (Value.legible_int 126 Int64.minValue)
  exact houter.insert "nothing" hinner

theorem notes_come_back :
    notes.Legible ∧ notes.jsonText = notesText ∧ Context.ofText? notesText = some notes := by
  have htext : notes.jsonText = notesText := by decide
  obtain ⟨-, hcontext, -⟩ := texts_keep_contexts
  obtain ⟨-, hread, -⟩ := hcontext notes notes_legible
  exact ⟨notes_legible, htext, htext ▸ hread⟩

end Workflow
