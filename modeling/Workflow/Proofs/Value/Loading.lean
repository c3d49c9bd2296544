import Workflow.Proofs.Json.Reader
import Workflow.Proofs.Value.Place

/-! # Workflow.Proofs.Value.Loading

Two ways to load a context from text. The straight one fills the map while it reads, field by field.
The other one builds a document first, with the fields of its objects in order and each key once,
and then takes the context from the document. They agree on every text.

* `Context.readStraight?`: the straight way; `readStraight?_eq` says that it is the one which reads
  the fields as they are written and then writes them to a map.
* `Value.ofJson_canonical`: putting a document in order changes nothing about its value.
* `ways_of_loading_agree`: both ways succeed on the same texts, with the same context.
-/

namespace Workflow

/-! ## Straight from the text -/

namespace Value

def scalarStraight (input : List Char) : Option (Value × List Char) :=
  (Json.Reader.scalar input).map (Prod.map ofJson id)

/-- Fields with commas between them, each written to the table as soon as it is read. -/
def fillFrom (value : List Char → Option (Value × List Char)) :
    Nat → Table Value → List Char → Option (Table Value × List Char)
  | 0, _, _ => none
  | fuel + 1, table, input => do
    let ((key, entry), rest) ← Json.Reader.field value input
    match Json.Reader.skipSpace rest with
    | c :: rest =>
      if c = '\x7d' then return (table.insert key entry, rest)
      else if c = ',' then fillFrom value fuel (table.insert key entry) rest
      else none
    | [] => none

/-- What follows an opening brace. -/
def fill (value : List Char → Option (Value × List Char)) (input : List Char) :
    Option (Table Value × List Char) :=
  match Json.Reader.skipSpace input with
  | c :: rest =>
    if c = '\x7d' then some (Table.empty, rest)
    else fillFrom value (input.length + 1) Table.empty (c :: rest)
  | [] => none

/-- A value in which objects and lists stand at most `depth` deep. -/
def readStraight : Nat → List Char → Option (Value × List Char)
  | 0, input =>
    match Json.Reader.skipSpace input with
    | '[' :: _ => none
    | '\x7b' :: _ => none
    | input => scalarStraight input
  | depth + 1, input =>
    match Json.Reader.skipSpace input with
    | '[' :: rest => do
      let (items, rest) ← Json.Reader.items (readStraight depth) ']' rest
      return (.list items, rest)
    | '\x7b' :: rest => do
      let (table, rest) ← fill (readStraight depth) rest
      return (.map table, rest)
    | input => scalarStraight input

end Value

/-- A context is an object, which takes one level of the depth itself. -/
def Context.readStraight? (text : String) : Option Context :=
  match Json.Reader.skipSpace text.toList with
  | '\x7b' :: rest => do
    let (table, rest) ← Value.fill (Value.readStraight (Json.Reader.maxDepth - 1)) rest
    if (Json.Reader.skipSpace rest).isEmpty then return ⟨table⟩ else none
  | _ => none

/-! ## Reading other things than documents -/

namespace Json
namespace Reader

variable {α β : Type} {f : α → β} {item : List Char → Option (α × List Char)}
  {item' : List Char → Option (β × List Char)}

theorem itemsFrom_map (h : ∀ input, item' input = (item input).map (Prod.map f id)) (close : Char)
    (fuel : Nat) (input : List Char) : itemsFrom item' close fuel input =
      (itemsFrom item close fuel input).map (Prod.map (List.map f) id) := by
  induction fuel generalizing input with
  | zero => rfl
  | succ fuel ih =>
    simp only [itemsFrom, h]
    cases item input with
    | none => rfl
    | some first =>
      obtain ⟨x, rest⟩ := first
      cases hrest : skipSpace rest with
      | nil => simp [hrest]
      | cons c rest =>
        simp only [Option.map_some, Option.bind_eq_bind, Option.bind_some, Prod.map, id, hrest]
        split
        · rfl
        · split
          · rw [ih]
            cases itemsFrom item close fuel rest <;> rfl
          · rfl

theorem items_map (h : ∀ input, item' input = (item input).map (Prod.map f id)) (close : Char)
    (input : List Char) :
    items item' close input = (items item close input).map (Prod.map (List.map f) id) := by
  unfold items
  split
  · split
    · rfl
    · exact itemsFrom_map h close _ _
  · rfl

theorem field_map (h : ∀ input, item' input = (item input).map (Prod.map f id))
    (input : List Char) :
    field item' input = (field item input).map (Prod.map (Prod.map id f) id) := by
  unfold field
  split
  case h_1 rest _ =>
    cases Quoted.read rest with
    | none => rfl
    | some read =>
      obtain ⟨key, rest⟩ := read
      simp only [Option.bind_eq_bind, Option.bind_some]
      split
      case h_1 rest _ =>
        rw [h]
        cases item rest <;> rfl
      case h_2 => rfl
  case h_2 => rfl

end Reader
end Json

namespace Value

/-- The fields of an object, written to a table one after the other. -/
def written (table : Table Value) (fields : List (String × Json)) : Table Value :=
  (fieldsOfJson fields).foldl (fun t (key, value) => t.insert key value) table

variable {value : List Char → Option (Value × List Char)}
  {json : List Char → Option (Json × List Char)}

theorem fillFrom_eq (h : ∀ input, value input = (json input).map (Prod.map ofJson id))
    (fuel : Nat) (table : Table Value) (input : List Char) : fillFrom value fuel table input =
      (Json.Reader.itemsFrom (Json.Reader.field json) '\x7d' fuel input).map
        (Prod.map (written table) id) := by
  induction fuel generalizing table input with
  | zero => rfl
  | succ fuel ih =>
    simp only [fillFrom, Json.Reader.itemsFrom, Json.Reader.field_map h]
    cases Json.Reader.field json input with
    | none => rfl
    | some first =>
      obtain ⟨⟨key, part⟩, rest⟩ := first
      cases hrest : Json.Reader.skipSpace rest with
      | nil => simp [hrest]
      | cons c rest =>
        simp only [Option.map_some, Option.bind_eq_bind, Option.bind_some, Prod.map, id, hrest]
        split
        · rfl
        · split
          · rw [ih]
            cases Json.Reader.itemsFrom (Json.Reader.field json) '\x7d' fuel rest <;> rfl
          · rfl

theorem fill_eq (h : ∀ input, value input = (json input).map (Prod.map ofJson id))
    (input : List Char) : fill value input =
      (Json.Reader.items (Json.Reader.field json) '\x7d' input).map
        (Prod.map (fun fields => Table.ofList (fieldsOfJson fields)) id) := by
  unfold fill Json.Reader.items
  generalize Json.Reader.skipSpace input = stripped
  cases stripped with
  | nil => rfl
  | cons c rest =>
    simp only []
    split
    · rfl
    · exact fillFrom_eq h _ _ _

theorem readStraight_of_other {depth : Nat} {input : List Char} (h : Json.Reader.Plain input) :
    readStraight depth input = scalarStraight (Json.Reader.skipSpace input) := by
  cases depth <;> rw [readStraight] <;> split
  case _ heq => exact absurd heq (h _).1
  case _ heq => exact absurd heq (h _).2
  case _ => rfl
  case _ heq => exact absurd heq (h _).1
  case _ heq => exact absurd heq (h _).2
  case _ => rfl

theorem readStraight_eq (depth : Nat) (input : List Char) :
    readStraight depth input = (Json.Reader.value depth input).map (Prod.map ofJson id) := by
  induction depth generalizing input with
  | zero =>
    rcases Json.Reader.opening_cases input with ⟨rest, h⟩ | ⟨rest, h⟩ | h
    · rw [Json.Reader.value_zero_of_bracket h]
      simp only [readStraight, h, Option.map_none]
    · rw [Json.Reader.value_zero_of_brace h]
      simp only [readStraight, h, Option.map_none]
    · rw [Json.Reader.value_of_other h, readStraight_of_other h, scalarStraight]
  | succ depth ih =>
    rcases Json.Reader.opening_cases input with ⟨rest, h⟩ | ⟨rest, h⟩ | h
    · rw [Json.Reader.value_of_bracket h]
      simp only [readStraight, h, Json.Reader.items_map ih]
      cases Json.Reader.items (Json.Reader.value depth) ']' rest with
      | none => rfl
      | some read => simp [ofJson, itemsOfJson_eq, Prod.map]
    · rw [Json.Reader.value_of_brace h]
      simp only [readStraight, h, fill_eq ih]
      cases Json.Reader.items (Json.Reader.field (Json.Reader.value depth)) '\x7d' rest <;> rfl
    · rw [Json.Reader.value_of_other h, readStraight_of_other h, scalarStraight]

end Value

namespace Json

/-- The document is an object. -/
def IsObject (json : Json) : Prop := ∃ fields, json = .object fields

namespace Reader

theorem not_isObject_of_number? {s : Spelling} {json : Json} (h : s.number? = some json) :
    ¬ json.IsObject := by
  rintro ⟨fields, rfl⟩
  unfold Spelling.number? at h
  dsimp only at h
  split at h
  · split at h
    · cases h
    · split at h <;> cases h
  · obtain ⟨x, -, hx⟩ := Option.map_eq_some_iff.1 h
    cases hx

theorem not_isObject_of_scalar {input rest : List Char} {json : Json}
    (h : scalar input = some (json, rest)) : ¬ json.IsObject := by
  unfold scalar at h
  split at h
  case h_4 =>
    simp only [Option.bind_eq_bind, Option.bind_eq_some_iff] at h
    obtain ⟨read, -, hjson⟩ := h
    cases hjson
    rintro ⟨fields, hfields⟩
    cases hfields
  case h_5 =>
    simp only [Option.bind_eq_bind, Option.bind_eq_some_iff] at h
    obtain ⟨read, -, number, hnumber, hjson⟩ := h
    cases hjson
    exact not_isObject_of_number? hnumber
  all_goals
    cases h
    rintro ⟨fields, hfields⟩
    cases hfields

/-- Nothing but a brace opens an object. -/
theorem not_isObject_of_value {depth : Nat} {input rest : List Char} {json : Json}
    (h : value depth input = some (json, rest)) (hinput : ∀ tail, skipSpace input ≠ '\x7b' :: tail) :
    ¬ json.IsObject := by
  rcases opening_cases input with ⟨tail, hopen⟩ | ⟨tail, hopen⟩ | hopen
  · cases depth with
    | zero =>
      rw [value_zero_of_bracket hopen] at h
      cases h
    | succ depth =>
      rw [value_of_bracket hopen] at h
      obtain ⟨read, -, hjson⟩ := Option.map_eq_some_iff.1 h
      cases hjson
      rintro ⟨fields, hfields⟩
      cases hfields
  · exact absurd hopen (hinput tail)
  · rw [value_of_other hopen] at h
    exact not_isObject_of_scalar h

end Reader
end Json

@[induction_eliminator]
theorem Json.induction {P : Json → Prop} (null : P .null) (bool : ∀ b, P (.bool b))
    (integer : ∀ i, P (.integer i)) (double : ∀ x, P (.double x)) (string : ∀ s, P (.string s))
    (array : ∀ items, (∀ item ∈ items, P item) → P (.array items))
    (object : ∀ fields : List (String × Json), (∀ f ∈ fields, P f.2) → P (.object fields)) :
    ∀ json, P json
  | .null => null
  | .bool b => bool b
  | .integer i => integer i
  | .double x => double x
  | .string s => string s
  | .array items => array items fun item _hitem =>
    induction null bool integer double string array object item
  | .object fields => object fields fun f _hf =>
    induction null bool integer double string array object f.2
termination_by json => sizeOf json
decreasing_by
  · have := List.sizeOf_lt_of_mem _hitem
    simp only [Json.array.sizeOf_spec]
    omega
  · have := List.sizeOf_lt_of_mem _hf
    obtain ⟨key, value⟩ := f
    simp only [Json.object.sizeOf_spec, Prod.mk.sizeOf_spec] at this ⊢
    omega

namespace Value

theorem ofJson_canonical (json : Json) : ofJson json.canonical = ofJson json := by
  induction json with
  | null | bool | integer | double | string => rfl
  | array items ih =>
    simp only [Json.canonical, ofJson, Json.canonicalItems_eq, itemsOfJson_eq, List.map_map]
    exact congrArg list (List.map_congr_left ih)
  | object fields ih =>
    have hfields : (Json.canonicalFields fields).map (fun f => (f.1, ofJson f.2)) =
        fieldsOfJson fields := by
      rw [Json.canonicalFields_eq, fieldsOfJson_eq, List.map_map]
      exact List.map_congr_left fun f hf => congrArg (Prod.mk f.1) (ih f hf)
    have htable := Table.ofList_map_entries ofJson (Table.ofList (Json.canonicalFields fields))
    rw [Table.mapValues_ofList, hfields] at htable
    rw [Json.canonical, ofJson, ofJson, fieldsOfJson_eq, htable]

end Value

namespace Context

theorem ofJson?_canonical (json : Json) : ofJson? json.canonical = ofJson? json := by
  cases json with
  | object fields =>
    have hvalue := Value.ofJson_canonical (.object fields)
    exact congrArg (fun table => some (Context.mk table)) (Value.map.inj hvalue)
  | null | bool | integer | double | string | array => rfl

theorem ofJson?_eq_none_iff {json : Json} : ofJson? json = none ↔ ¬ json.IsObject := by
  cases json <;> simp [ofJson?, Json.IsObject]

/-- The straight way reads the fields of the object as they are written, and the last one of each
key stays. -/
theorem readStraight?_eq (text : String) : readStraight? text = ofText? text := by
  unfold readStraight? ofText? Json.ofText? Json.ofChars?
  split
  case h_1 rest hopen =>
    obtain ⟨depth, hdepth⟩ : ∃ depth, Json.Reader.maxDepth = depth + 1 := ⟨126, rfl⟩
    rw [Value.fill_eq (Value.readStraight_eq _), hdepth, Json.Reader.value_of_brace hopen,
      Nat.add_sub_cancel]
    cases Json.Reader.items (Json.Reader.field (Json.Reader.value depth)) '\x7d' rest with
    | none => rfl
    | some read =>
      obtain ⟨fields, rest⟩ := read
      by_cases hrest : Json.Reader.skipSpace rest = [] <;> simp [hrest, ofJson?]
  case h_2 hopen =>
    cases hread : Json.Reader.value Json.Reader.maxDepth text.toList with
    | none => rfl
    | some read =>
      obtain ⟨json, rest⟩ := read
      have hnone : ofJson? json = none :=
        ofJson?_eq_none_iff.2 (Json.Reader.not_isObject_of_value hread hopen)
      by_cases hrest : Json.Reader.skipSpace rest = [] <;> simp [hrest, hnone]

end Context

/-- Reading a context straight from a text comes to the same as reading the text as a document and
taking the context from it: both succeed on the same texts with the same context, and what fails is
no document or a document that is no object. Of the fields with one key the last one stays on both
ways, however deep they stand. -/
theorem ways_of_loading_agree (text : String) :
    (∀ c, Context.readStraight? text = some c ↔
      ∃ document, Json.document? text = some document ∧ Context.ofJson? document = some c) ∧
    (Context.readStraight? text = none ↔
      Json.document? text = none ∨
        ∃ document, Json.document? text = some document ∧ ¬ document.IsObject) ∧
    (∀ document, Context.ofJson? document = none ↔ ¬ document.IsObject) ∧
    Context.readStraight? text = Context.ofText? text ∧
    (∀ written, Json.ofText? text = some written →
      Json.document? text = some written.canonical ∧
      (∀ place, written.canonical.at? place = (written.at? place).map Json.canonical) ∧
      ∀ c, Context.readStraight? text = some c →
        ∀ place, (toValue c).at? place = (written.at? place).map Value.ofJson) := by
  have hways : Context.readStraight? text = (Json.document? text).bind Context.ofJson? := by
    rw [Context.readStraight?_eq, Context.ofText?, Json.document?]
    cases Json.ofText? text with
    | none => rfl
    | some written => exact (Context.ofJson?_canonical written).symm
  refine ⟨fun c => ?_, ?_, fun _ => Context.ofJson?_eq_none_iff, Context.readStraight?_eq text,
    fun written hwritten => ⟨?_, Json.at?_canonical written, fun c hc place => ?_⟩⟩
  · rw [hways, Option.bind_eq_some_iff]
  · rw [hways, Option.bind_eq_none_iff]
    cases Json.document? text with
    | none => simp
    | some document => simp [Context.ofJson?_eq_none_iff]
  · rw [Json.document?, hwritten, Option.map_some]
  · rw [Context.readStraight?_eq, Context.ofText?, hwritten, Option.bind_some] at hc
    rw [← Value.at?_ofJson]
    cases written with
    | object fields => cases hc; rfl
    | null | bool | integer | double | string | array => cases hc

/-- An object with a key twice, the second time with an object in which a key comes twice, and with
an integer that is too large. -/
def twiceKeyed : String :=
  "\x7b\"a\":\x7b\"k\":1\x7d,\"b\":[9223372036854775808],\"a\":\x7b\"k\":3,\"k\":[2]\x7d\x7d"

def twiceKeyedWritten : Json :=
  .object [("a", .object [("k", .integer 1)]), ("b", .array [.integer 9223372036854775808]),
    ("a", .object [("k", .integer 3), ("k", .array [.integer 2])])]

/-- It is loaded on both ways, with what came last; a list and a text that breaks off are not. -/
theorem twice_keyed_is_loaded :
    (∃ c, Context.readStraight? twiceKeyed = some c ∧
      (∃ document, Json.document? twiceKeyed = some document ∧ Context.ofJson? document = some c) ∧
      (toValue c).at? [.field "a", .field "k", .item 0] = some (.int 2) ∧
      (toValue c).at? [.field "b", .item 0] = some (.float ⟨0x43e0000000000000⟩)) ∧
    Context.readStraight? "[1]" = none ∧ Context.readStraight? "\x7b" = none := by
  obtain ⟨hstraight, -, -, -, hplaces⟩ := ways_of_loading_agree twiceKeyed
  obtain ⟨hdocument, -, hat⟩ := hplaces twiceKeyedWritten rfl
  have hread := (hstraight _).2 ⟨_, hdocument, rfl⟩
  have hround : Double.ofInt 9223372036854775808 = ⟨0x43e0000000000000⟩ := by decide +kernel
  refine ⟨⟨_, hread, ⟨_, hdocument, rfl⟩, hat _ hread _, hround ▸ hat _ hread _⟩, ?_, ?_⟩
  · exact (ways_of_loading_agree "[1]").2.1.2 (.inr ⟨.array [.integer 1], rfl, nofun⟩)
  · exact (ways_of_loading_agree "\x7b").2.1.2 (.inl rfl)

end Workflow
