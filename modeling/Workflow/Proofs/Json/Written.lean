import Workflow.Json.Printer
import Workflow.Json.Reader
import Workflow.Proofs.Json.Literal
import Workflow.Proofs.Json.Quoted
import Workflow.Proofs.Value.Place

/-! # Workflow.Proofs.Json.Written

Documents as syntax trees, in which the literals of the numbers stand as they are written, and the
texts that spell them.

* `Written.json?`: the document that a tree stands for. There is one if all the literals in the tree
  are accepted (`Written.isSome_json?_iff`).
* `Written.Spells`: the grammar. `Listed` puts commas between the items of a list or the fields of an
  object, with blanks around each.
* `Written.StandsIn`: the tree is spelled by a whole text, with blanks around it.
* `Written.at?_json?`: what stands in a place of the tree stands for what is in the place of the
  document.
-/

namespace Workflow
namespace Json

inductive Written where
  | null
  | bool (value : Bool)
  | number (literal : Literal)
  | string (text : String)
  | array (items : List Written)
  | object (fields : List (String × Written))

namespace Written

@[induction_eliminator]
theorem induction {P : Written → Prop} (null : P .null) (bool : ∀ b, P (.bool b))
    (number : ∀ l, P (.number l)) (string : ∀ s, P (.string s))
    (array : ∀ items, (∀ item ∈ items, P item) → P (.array items))
    (object : ∀ fields : List (String × Written), (∀ f ∈ fields, P f.2) → P (.object fields)) :
    ∀ w, P w
  | .null => null
  | .bool b => bool b
  | .number l => number l
  | .string s => string s
  | .array items => array items fun item _hitem =>
    induction null bool number string array object item
  | .object fields => object fields fun f _hf =>
    induction null bool number string array object f.2
termination_by w => sizeOf w
decreasing_by
  · have := List.sizeOf_lt_of_mem _hitem
    simp only [Written.array.sizeOf_spec]
    omega
  · have := List.sizeOf_lt_of_mem _hf
    obtain ⟨key, value⟩ := f
    simp only [Written.object.sizeOf_spec, Prod.mk.sizeOf_spec] at this ⊢
    omega

/-! ## The document -/

mutual

def json? : Written → Option Json
  | .null => some .null
  | .bool b => some (.bool b)
  | .number l => l.spelling.number?
  | .string s => some (.string s)
  | .array items => (itemsJson? items).map .array
  | .object fields => (fieldsJson? fields).map .object

def itemsJson? : List Written → Option (List Json)
  | [] => some []
  | item :: items => do
    let first ← item.json?
    let rest ← itemsJson? items
    return first :: rest

def fieldsJson? : List (String × Written) → Option (List (String × Json))
  | [] => some []
  | (key, value) :: fields => do
    let first ← value.json?
    let rest ← fieldsJson? fields
    return (key, first) :: rest

end

theorem itemsJson?_map {ι : Type} {f : ι → Written} {g : ι → Json} {xs : List ι}
    (h : ∀ x ∈ xs, (f x).json? = some (g x)) : itemsJson? (xs.map f) = some (xs.map g) := by
  induction xs with
  | nil => rfl
  | cons x xs ih =>
    have hxs := ih fun y hy => h y (List.mem_cons_of_mem x hy)
    simp [itemsJson?, h x List.mem_cons_self, hxs]

theorem fieldsJson?_map {ι : Type} {key : ι → String} {f : ι → Written} {g : ι → Json}
    {xs : List ι} (h : ∀ x ∈ xs, (f x).json? = some (g x)) :
    fieldsJson? (xs.map fun x => (key x, f x)) = some (xs.map fun x => (key x, g x)) := by
  induction xs with
  | nil => rfl
  | cons x xs ih =>
    have hxs := ih fun y hy => h y (List.mem_cons_of_mem x hy)
    simp [fieldsJson?, h x List.mem_cons_self, hxs]

theorem isSome_itemsJson?_iff {items : List Written} :
    (itemsJson? items).isSome = true ↔ ∀ item ∈ items, item.json?.isSome = true := by
  induction items with
  | nil => simp [itemsJson?]
  | cons item items ih =>
    rw [List.forall_mem_cons, ← ih]
    cases hitem : item.json? <;> cases hitems : itemsJson? items <;>
      simp [itemsJson?, hitem, hitems]

theorem isSome_fieldsJson?_iff {fields : List (String × Written)} :
    (fieldsJson? fields).isSome = true ↔ ∀ f ∈ fields, f.2.json?.isSome = true := by
  induction fields with
  | nil => simp [fieldsJson?]
  | cons f fields ih =>
    rw [List.forall_mem_cons, ← ih]
    cases hf : f.2.json? <;> cases hfields : fieldsJson? fields <;>
      simp [fieldsJson?, hf, hfields]

/-- The literal stands somewhere in the tree, be it in a field that another one with its key comes
after. -/
inductive Holds (l : Literal) : Written → Prop where
  | self : Holds l (.number l)
  | item {items : List Written} {item : Written} (hitem : item ∈ items) (h : Holds l item) :
      Holds l (.array items)
  | field {fields : List (String × Written)} {f : String × Written} (hf : f ∈ fields)
      (h : Holds l f.2) : Holds l (.object fields)

/-- One literal that is not accepted spoils the whole document, and nothing else does. -/
theorem isSome_json?_iff {w : Written} :
    w.json?.isSome = true ↔ ∀ l, w.Holds l → l.spelling.number?.isSome = true := by
  induction w with
  | null | bool | string => exact ⟨fun _ l h => (nomatch h), fun _ => rfl⟩
  | number l =>
    refine ⟨fun haccepted l' h => ?_, fun h => h l .self⟩
    cases h
    exact haccepted
  | array items ih =>
    rw [json?, Option.isSome_map, isSome_itemsJson?_iff]
    constructor
    · rintro h l (_ | ⟨hitem, hl⟩ | _)
      exact (ih _ hitem).1 (h _ hitem) l hl
    · exact fun h item hitem => (ih item hitem).2 fun l hl => h l (.item hitem hl)
  | object fields ih =>
    rw [json?, Option.isSome_map, isSome_fieldsJson?_iff]
    constructor
    · rintro h l (_ | _ | ⟨hf, hl⟩)
      exact (ih _ hf).1 (h _ hf) l hl
    · exact fun h f hf => (ih f hf).2 fun l hl => h l (.field hf hl)

/-! ## Nesting -/

mutual

/-- How many lists and objects stand in one another at most, the document itself counted. -/
def nesting : Written → Nat
  | .null | .bool _ | .number _ | .string _ => 0
  | .array items => nestingOfItems items + 1
  | .object fields => nestingOfFields fields + 1

def nestingOfItems : List Written → Nat
  | [] => 0
  | item :: items => max item.nesting (nestingOfItems items)

def nestingOfFields : List (String × Written) → Nat
  | [] => 0
  | (_, value) :: fields => max value.nesting (nestingOfFields fields)

end

theorem nestingOfItems_le {items : List Written} {n : Nat} :
    nestingOfItems items ≤ n ↔ ∀ item ∈ items, item.nesting ≤ n := by
  induction items with
  | nil => simp [nestingOfItems]
  | cons item items ih => rw [nestingOfItems, Nat.max_le, ih, List.forall_mem_cons]

theorem nestingOfFields_le {fields : List (String × Written)} {n : Nat} :
    nestingOfFields fields ≤ n ↔ ∀ f ∈ fields, f.2.nesting ≤ n := by
  induction fields with
  | nil => simp [nestingOfFields]
  | cons f fields ih => rw [nestingOfFields, Nat.max_le, ih, List.forall_mem_cons]

/-! ## Places -/

def child? : Written → Step → Option Written
  | .array items, .item index => items[index]?
  | .object fields, .field key => lastField? fields key
  | _, _ => none

def at? (w : Written) (place : Place) : Option Written := place.foldlM child? w

theorem getElem?_of_itemsJson? {items : List Written} {values : List Json}
    (h : itemsJson? items = some values) {index : Nat} {part : Written}
    (hpart : items[index]? = some part) :
    ∃ value, part.json? = some value ∧ values[index]? = some value := by
  induction items generalizing values index with
  | nil => cases hpart
  | cons item items ih =>
    simp only [itemsJson?, Option.bind_eq_bind, Option.bind_eq_some_iff] at h
    obtain ⟨first, hfirst, rest, hrest, h⟩ := h
    cases h
    cases index with
    | zero =>
      cases hpart
      exact ⟨first, hfirst, rfl⟩
    | succ index => exact ih hrest hpart

theorem keys_of_fieldsJson? {fields : List (String × Written)} {values : List (String × Json)}
    (h : fieldsJson? fields = some values) : values.map Prod.fst = fields.map Prod.fst := by
  induction fields generalizing values with
  | nil =>
    cases h
    rfl
  | cons f fields ih =>
    simp only [fieldsJson?, Option.bind_eq_bind, Option.bind_eq_some_iff] at h
    obtain ⟨first, -, rest, hrest, h⟩ := h
    cases h
    rw [List.map_cons, List.map_cons, ih hrest]

theorem lastField?_of_fieldsJson? {fields : List (String × Written)}
    {values : List (String × Json)} (h : fieldsJson? fields = some values) {key : String}
    {part : Written} (hpart : lastField? fields key = some part) :
    ∃ value, part.json? = some value ∧ lastField? values key = some value := by
  induction fields generalizing values with
  | nil => cases hpart
  | cons f fields ih =>
    simp only [fieldsJson?, Option.bind_eq_bind, Option.bind_eq_some_iff] at h
    obtain ⟨first, hfirst, rest, hrest, h⟩ := h
    cases h
    rw [lastField?_cons] at hpart ⊢
    cases hlast : lastField? fields key with
    | some last =>
      rw [hlast, Option.some_or] at hpart
      obtain ⟨value, hvalue, hrest⟩ := ih hrest (hlast.trans hpart)
      exact ⟨value, hvalue, by rw [hrest, Option.some_or]⟩
    | none =>
      rw [hlast, Option.none_or, Option.ite_none_right_eq_some] at hpart
      obtain ⟨hkey, hpart⟩ := hpart
      have hnone : lastField? rest key = none := by
        rw [← Option.not_isSome_iff_eq_none, isSome_lastField?_iff, keys_of_fieldsJson? hrest,
          ← isSome_lastField?_iff, hlast]
        exact Bool.false_ne_true
      exact ⟨first, Option.some.inj hpart ▸ hfirst, by rw [hnone, Option.none_or, if_pos hkey]⟩

/-- What stands in a place of the tree stands for what is in the place of the document. -/
theorem at?_json? {w part : Written} {json : Json} (h : w.json? = some json) {place : Place}
    (hpart : w.at? place = some part) :
    ∃ value, part.json? = some value ∧ json.at? place = some value := by
  induction place generalizing w json with
  | nil =>
    cases hpart
    exact ⟨json, h, rfl⟩
  | cons step place ih =>
    simp only [at?, List.foldlM_cons, Option.bind_eq_bind, Option.bind_eq_some_iff] at hpart
    obtain ⟨child, hchild, hpart⟩ := hpart
    have hvalue : ∃ value, child.json? = some value ∧ json.child? step = some value := by
      cases w with
      | array items =>
        obtain ⟨values, hvalues, rfl⟩ := Option.map_eq_some_iff.1 h
        cases step with
        | item index => exact getElem?_of_itemsJson? hvalues hchild
        | field key => cases hchild
      | object fields =>
        obtain ⟨values, hvalues, rfl⟩ := Option.map_eq_some_iff.1 h
        cases step with
        | item index => cases hchild
        | field key => exact lastField?_of_fieldsJson? hvalues hchild
      | null | bool | number | string => cases hchild
    obtain ⟨value, hvalue, hstep⟩ := hvalue
    obtain ⟨value', hvalue', hplace⟩ := ih hvalue hpart
    refine ⟨value', hvalue', ?_⟩
    rw [Json.at?, List.foldlM_cons, hstep]
    exact hplace

end Written

/-! ## The grammar -/

/-- Nothing but blanks. -/
def Blank (text : List Char) : Prop := ∀ c ∈ text, Reader.isSpace c = true

/-- The texts of several things with commas between them and blanks around each, or blanks alone if
there are none. -/
inductive Listed {α : Type} (spells : α → List Char → Prop) : List α → List Char → Prop where
  | none {before : List Char} (hbefore : Blank before) : Listed spells [] before
  | one {x : α} {before text after : List Char} (hbefore : Blank before) (hx : spells x text)
      (hafter : Blank after) : Listed spells [x] (before ++ (text ++ after))
  | cons {x y : α} {xs : List α} {before text after more : List Char} (hbefore : Blank before)
      (hx : spells x text) (hafter : Blank after) (hmore : Listed spells (y :: xs) more) :
      Listed spells (x :: y :: xs) (before ++ (text ++ (after ++ ',' :: more)))

/-- The texts of a field: a key in quotes, a colon and a value, with blanks around the colon. -/
inductive FieldSpells {α : Type} (spells : α → List Char → Prop) : String × α → List Char → Prop where
  | mk {key : String} {value : α} {marks before after text : List Char}
      (hkey : Quoted.Marks key.toList marks) (hbefore : Blank before) (hafter : Blank after)
      (hvalue : spells value text) :
      FieldSpells spells (key, value) ('"' :: (marks ++ '"' :: (before ++ ':' :: (after ++ text))))

theorem blank_nil : Blank [] := nofun

/-- The printer puts no blanks around the commas, -/
theorem listed_commaSeparated {ι α : Type} {spells : α → List Char → Prop} {f : ι → α}
    {part : ι → List Char} {xs : List ι} (h : ∀ x ∈ xs, spells (f x) (part x)) :
    Listed spells (xs.map f) (commaSeparated (xs.map part)) := by
  induction xs with
  | nil => exact .none blank_nil
  | cons x xs ih =>
    have hx := h x List.mem_cons_self
    cases xs with
    | nil =>
      have hone := Listed.one blank_nil hx blank_nil
      simpa [commaSeparated_singleton] using hone
    | cons y ys =>
      simp only [List.map_cons, commaSeparated_cons_cons] at ih ⊢
      exact .cons blank_nil hx blank_nil (ih fun z hz => h z (List.mem_cons_of_mem x hz))

/-- and none around the colon. -/
theorem fieldSpells_fieldChars {α : Type} {spells : α → List Char → Prop} {value : α}
    {text : List Char} (h : spells value text) (key : String) :
    FieldSpells spells (key, value) (fieldChars key text) := by
  have hfield := FieldSpells.mk (Quoted.marks_escape key.toList) blank_nil blank_nil h
  simpa [fieldChars, Quoted.write] using hfield

namespace Written

/-- The texts of a document, from its first character that is no blank to its last. -/
inductive Spells : Written → List Char → Prop where
  | null : Spells .null "null".toList
  | bool (b : Bool) : Spells (.bool b) (boolChars b)
  | number (l : Literal) : Spells (.number l) l.chars
  | string {s : String} {marks : List Char} (h : Quoted.Marks s.toList marks) :
      Spells (.string s) ('"' :: (marks ++ ['"']))
  | array {items : List Written} {inner : List Char} (h : Listed Spells items inner) :
      Spells (.array items) ('[' :: (inner ++ [']']))
  | object {fields : List (String × Written)} {inner : List Char}
      (h : Listed (FieldSpells Spells) fields inner) :
      Spells (.object fields) ('\x7b' :: (inner ++ ['\x7d']))

/-- The text is that of the document, with blanks around it. -/
def StandsIn (w : Written) (text : String) : Prop :=
  ∃ before inner after, Blank before ∧ w.Spells inner ∧ Blank after ∧
    text.toList = before ++ (inner ++ after)

end Written
end Json
end Workflow
