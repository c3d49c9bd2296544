import Workflow.Proofs.Value.Loading
import Workflow.Proofs.Value.Tree

/-! # Workflow.Proofs.Value.Numbers

Which numbers of a document become integers and which become floats, and what becomes of the numbers
of a value that is written and read again.

* `Json.Literal.value?`: what a literal is read as. `value?_of_integral` and `value?_of_not_integral`
  are the two kinds.
* `Json.Written.StandsIn.at?_integral` and `at?_not_integral`: the kinds of the numbers in a document.
* `Value.at?_tree`: each place of a value has in the tree of its text the text of what stands there.
* `numbers_keep_their_kind`: reading and writing.
-/

namespace Workflow

namespace Json

/-! ## Literals -/

namespace Literal

variable {l : Literal}

/-- What the literal is read as, if it is accepted. -/
def value? (l : Literal) : Option Value := l.spelling.number?.map Value.ofJson

theorem value?_of_integral (h : l.Integral) :
    l.value? = some (.int (Int64.ofInt l.integer)) := by
  rw [value?, number?_of_integral h, Option.map_some, Value.ofJson, Value.ofInteger,
    if_pos ⟨h.least, h.greatest⟩]

theorem toInt_ofInt_of_integral (h : l.Integral) : (Int64.ofInt l.integer).toInt = l.integer :=
  Int64.toInt_ofInt_of_le h.least (Int.lt_of_le_of_lt h.greatest (by decide))

theorem value?_of_not_integral (h : ¬ l.Integral) {v : Value} (hv : l.value? = some v) :
    ∃ x, v = .float x := by
  obtain ⟨json, hnumber, rfl⟩ := Option.map_eq_some_iff.1 hv
  exact isFloat_of_number? hnumber h

end Literal

/-! ## Documents -/

namespace Written

variable {w : Written} {text : String}

theorem StandsIn.value? (h : w.StandsIn text) :
    Value.ofText? text =
      if w.nesting ≤ Reader.maxDepth then w.json?.map Value.ofJson else none := by
  rw [Value.ofText?, h.ofText?]
  split <;> rfl

/-- A literal that is an integer never keeps a document from being read. -/
theorem StandsIn.isSome_value?_iff (h : w.StandsIn text) :
    (Value.ofText? text).isSome = true ↔ w.nesting ≤ Reader.maxDepth ∧
      ∀ l, w.Holds l → ¬ l.Integral → l.value?.isSome = true := by
  have hliteral (l : Literal) : l.spelling.number?.isSome = true ↔
      (¬ l.Integral → l.value?.isSome = true) := by
    rw [Literal.value?, Option.isSome_map]
    refine ⟨fun haccepted _ => haccepted, fun haccepted => ?_⟩
    by_cases hl : l.Integral
    · rw [Literal.number?_of_integral hl, Option.isSome_some]
    · exact haccepted hl
  have hjson : w.json?.isSome = true ↔ ∀ l, w.Holds l → ¬ l.Integral → l.value?.isSome = true :=
    isSome_json?_iff.trans (forall₂_congr fun l _ => hliteral l)
  rw [h.value?, ← hjson]
  split
  case isTrue hnesting => rw [Option.isSome_map, and_iff_right hnesting]
  case isFalse hnesting => exact iff_of_false Bool.false_ne_true fun h => hnesting h.1

variable {v : Value} {place : Place} {l : Literal}

/-- A place that a literal stands in has in the value what the literal is read as. -/
theorem StandsIn.exists_at? (h : w.StandsIn text) (hv : Value.ofText? text = some v)
    (hl : w.at? place = some (.number l)) :
    ∃ u, l.value? = some u ∧ v.at? place = some u := by
  rw [h.value?, Option.ite_none_right_eq_some] at hv
  obtain ⟨json, hjson, rfl⟩ := Option.map_eq_some_iff.1 hv.2
  obtain ⟨number, hnumber, hplace⟩ := at?_json? hjson hl
  refine ⟨Value.ofJson number, ?_, ?_⟩
  · rw [Literal.value?, ← json?, hnumber, Option.map_some]
  · rw [Value.at?_ofJson, hplace, Option.map_some]

theorem StandsIn.at?_integral (h : w.StandsIn text) (hv : Value.ofText? text = some v)
    (hl : w.at? place = some (.number l)) (hkind : l.Integral) :
    v.at? place = some (.int (Int64.ofInt l.integer)) := by
  obtain ⟨u, hu, hplace⟩ := h.exists_at? hv hl
  rw [hplace, ← hu, Literal.value?_of_integral hkind]

theorem StandsIn.at?_not_integral (h : w.StandsIn text) (hv : Value.ofText? text = some v)
    (hl : w.at? place = some (.number l)) (hkind : ¬ l.Integral) :
    ∃ x, v.at? place = some (.float x) := by
  obtain ⟨u, hu, hplace⟩ := h.exists_at? hv hl
  obtain ⟨x, rfl⟩ := Literal.value?_of_not_integral hkind hu
  exact ⟨x, hplace⟩

end Written
end Json

/-! ## The text of a value -/

namespace Value

variable {v u : Value}

theorem child?_tree (v : Value) (step : Step) : v.tree.child? step = (v.child? step).map tree := by
  cases v with
  | list items =>
    cases step with
    | item index => simp [tree, child?, Json.Written.child?, treesOfItems_eq]
    | field key => rfl
  | map table =>
    rw [tree_map]
    cases step with
    | item index => rfl
    | field key =>
      simp only [child?, Json.Written.child?, lastField?_map]
      rw [Table.lastField?_entries]
  | float x =>
    rw [tree]
    split <;> rfl
  | null | bool | int | text => rfl

theorem at?_tree (v : Value) (place : Place) : v.tree.at? place = (v.at? place).map tree := by
  induction place generalizing v with
  | nil => rfl
  | cons step place ih =>
    simp only [at?, Json.Written.at?, List.foldlM_cons, Option.bind_eq_bind] at ih ⊢
    rw [child?_tree]
    cases v.child? step with
    | none => rfl
    | some part => exact ih part

/-- The other value has the same integers in their places, and floats where this one has finite
floats. -/
structure NumbersKept (v u : Value) : Prop where
  int : ∀ place i, v.at? place = some (.int i) → u.at? place = some (.int i)
  float : ∀ place x, v.at? place = some (.float x) → x.isFinite = true →
    ∃ y, u.at? place = some (.float y)

theorem exists_numbersKept (hnesting : v.nesting ≤ Json.Reader.maxDepth) :
    ∃ u, ofText? v.jsonText = some u ∧ v.NumbersKept u := by
  have hstands := v.standsIn_jsonText
  obtain ⟨json, hjson⟩ := Option.isSome_iff_exists.1 v.isSome_json?_tree
  have hread : ofText? v.jsonText = some (ofJson json) := by
    rw [hstands.value?, if_pos (nesting_tree_le.2 hnesting), hjson, Option.map_some]
  have hplace {place : Place} {l : Json.Literal} {part : Value} (hpart : v.at? place = some part)
      (hl : part.tree = .number l) : v.tree.at? place = some (.number l) := by
    rw [at?_tree, hpart, Option.map_some, hl]
  refine ⟨ofJson json, hread, fun place i hi => ?_, fun place x hx hfinite => ?_⟩
  · rw [hstands.at?_integral hread (hplace hi (by rw [tree])) (Json.Literal.integral_ofInt i),
      Json.Literal.integer_ofInt, Int64.ofInt_toInt]
  · exact hstands.at?_not_integral hread (hplace hx (by rw [tree, if_pos hfinite]))
      (Double.not_integral_literal hfinite)

theorem exists_map_of_jsonText {table : Table Value}
    (h : ofText? (Value.map table).jsonText = some u) : ∃ table', u = .map table' := by
  rw [(standsIn_jsonText _).value?, Option.ite_none_right_eq_some] at h
  obtain ⟨json, hjson, rfl⟩ := Option.map_eq_some_iff.1 h.2
  rw [tree_map, Json.Written.json?] at hjson
  obtain ⟨fields, -, rfl⟩ := Option.map_eq_some_iff.1 hjson
  exact ⟨_, rfl⟩

/-- The text of a value that is nested too deep is not read at all. -/
theorem ofText?_jsonText_eq_none_iff :
    ofText? v.jsonText = none ↔ Json.Reader.maxDepth < v.nesting := by
  rw [v.standsIn_jsonText.value?, ← Nat.not_le, ← nesting_tree_le]
  split
  case isTrue hnesting =>
    rw [Option.map_eq_none_iff, ← Option.not_isSome_iff_eq_none]
    exact iff_of_false (not_not.2 v.isSome_json?_tree) (not_not.2 hnesting)
  case isFalse hnesting => exact iff_of_true rfl hnesting

theorem document?_ofJson (text : String) :
    (Json.document? text).map ofJson = ofText? text := by
  rw [Json.document?, Option.map_map, ofText?]
  exact congrArg (Option.map · _) (funext ofJson_canonical)

end Value

namespace Context

theorem ofJson?_eq_some_iff {json : Json} {c : Context} :
    ofJson? json = some c ↔ Value.ofJson json = toValue c := by
  cases json with
  | object fields =>
    obtain ⟨values⟩ := c
    simp [ofJson?, Value.ofJson, toValue]
  | integer i =>
    simp only [ofJson?, Value.ofJson, Value.ofInteger, toValue]
    split <;> simp
  | null | bool | double | string | array => simp [ofJson?, Value.ofJson, toValue]

/-- Reading a context is reading a value and taking maps only. -/
theorem ofText?_eq_some_iff {text : String} {c : Context} :
    ofText? text = some c ↔ Value.ofText? text = some (toValue c) := by
  rw [ofText?, Value.ofText?, Option.bind_eq_some_iff, Option.map_eq_some_iff]
  exact exists_congr fun json => and_congr_right fun _ => ofJson?_eq_some_iff

theorem exists_numbersKept {c : Context}
    (hnesting : (toValue c).nesting ≤ Json.Reader.maxDepth) :
    ∃ d, ofText? c.jsonText = some d ∧ (toValue c).NumbersKept (toValue d) := by
  obtain ⟨u, hread, hkept⟩ := Value.exists_numbersKept hnesting
  obtain ⟨table, rfl⟩ := Value.exists_map_of_jsonText hread
  exact ⟨⟨table⟩, ofText?_eq_some_iff.2 hread, hkept⟩

end Context

/-! ## The kinds of numbers -/

/-- A number is read as an integer if it is written as one and fits, and as a float otherwise. In
writing, integers stay integers and floats stay floats. -/
theorem numbers_keep_their_kind :
    (∀ l : Json.Literal,
      (l.Integral → ∃ i : Int64, i.toInt = l.integer ∧ l.value? = some (.int i)) ∧
      (¬ l.Integral → ∀ v, l.value? = some v → ∃ x, v = .float x)) ∧
    (∀ text v, Value.ofText? text = some v → ∃ w : Json.Written, w.StandsIn text) ∧
    (∀ text (w : Json.Written), w.StandsIn text →
      ((Value.ofText? text).isSome = true ↔ w.nesting ≤ Json.Reader.maxDepth ∧
        ∀ l, w.Holds l → ¬ l.Integral → l.value?.isSome = true) ∧
      ∀ v, Value.ofText? text = some v → ∀ place l, w.at? place = some (.number l) →
        (l.Integral → ∃ i : Int64, i.toInt = l.integer ∧ v.at? place = some (.int i)) ∧
        (¬ l.Integral → ∃ x, v.at? place = some (.float x))) ∧
    (∀ text, (Json.document? text).map Value.ofJson = Value.ofText? text ∧
      ∀ c, Context.ofText? text = some c ↔ Value.ofText? text = some (toValue c)) ∧
    (∀ v : Value, v.nesting ≤ Json.Reader.maxDepth →
      ∃ u, Value.ofText? v.jsonText = some u ∧ v.NumbersKept u) ∧
    (∀ c : Context, (toValue c).nesting ≤ Json.Reader.maxDepth →
      ∃ d, Context.ofText? c.jsonText = some d ∧ (toValue c).NumbersKept (toValue d)) ∧
    (∀ v : Value, Value.ofText? v.jsonText = none ↔ Json.Reader.maxDepth < v.nesting) ∧
    (∀ x : Double, x.isFinite = true → ∃ l : Json.Literal,
      l.chars = (Value.float x).jsonChars ∧ (l.fraction ≠ none ∨ l.exponent ≠ none)) := by
  refine ⟨fun l => ⟨fun h => ⟨_, Json.Literal.toInt_ofInt_of_integral h,
      Json.Literal.value?_of_integral h⟩, fun h v hv => Json.Literal.value?_of_not_integral h hv⟩,
    fun text v h => ?_, fun text w h => ⟨h.isSome_value?_iff, fun v hv place l hl => ?_⟩,
    fun text => ⟨Value.document?_ofJson text, fun c => Context.ofText?_eq_some_iff⟩,
    fun v => Value.exists_numbersKept, fun c => Context.exists_numbersKept,
    fun v => Value.ofText?_jsonText_eq_none_iff,
    fun x hfinite => ?_⟩
  · obtain ⟨json, hjson, -⟩ := Option.map_eq_some_iff.1 h
    exact Json.Written.exists_of_ofText? hjson
  · exact ⟨fun hkind => ⟨_, Json.Literal.toInt_ofInt_of_integral hkind,
      h.at?_integral hv hl hkind⟩, h.at?_not_integral hv hl⟩
  · obtain ⟨hchars, hparts, -⟩ := Double.literal_spec hfinite
    exact ⟨x.literal, hchars, hparts⟩

/-! Among the numbers of a document are the greatest integer and the next one, zero with a sign, and a
hundred with an exponent. -/

def limit : Json.Literal := .ofInt 9223372036854775807

def beyond : Json.Literal := .ofInt 9223372036854775808

def minusNought : Json.Literal :=
  ⟨true, ['0'], none, none, Digits.run_singleton rfl, fun _ => rfl, Json.Literal.run_of_mem_none⟩

def hundred : Json.Literal :=
  ⟨false, ['1'], none, some ⟨'E', [], ['2'], .inr rfl, .inl rfl, Digits.run_singleton rfl⟩,
    Digits.run_singleton rfl, by simp, Json.Literal.run_of_mem_none⟩

def receiptText : String := "[9223372036854775807,9223372036854775808,-0,1E2]"

def receipt : Json.Written := .array ([limit, beyond, minusNought, hundred].map .number)

theorem receipt_standsIn : receipt.StandsIn receiptText := by
  refine ⟨[], _, [], Json.blank_nil,
    .array (Json.listed_commaSeparated fun l _ => .number l), Json.blank_nil, ?_⟩
  decide

theorem receipt_keeps_kinds :
    receipt.StandsIn receiptText ∧
    ∃ v, Value.ofText? receiptText = some v ∧
      v.at? [.item 0] = some (.int Int64.maxValue) ∧
      (∃ x, v.at? [.item 1] = some (.float x)) ∧
      (∃ x, v.at? [.item 2] = some (.float x)) ∧
      (∃ x, v.at? [.item 3] = some (.float x)) := by
  obtain ⟨-, -, hread, -⟩ := numbers_keep_their_kind
  obtain ⟨haccepted, hplace⟩ := hread _ receipt receipt_standsIn
  have hliterals : ∀ l, receipt.Holds l → l.value?.isSome = true := by
    rintro l (_ | ⟨hitem, hl⟩ | _)
    obtain ⟨literal, hliteral, rfl⟩ := List.mem_map.1 hitem
    cases hl
    have hall : ∀ l ∈ [limit, beyond, minusNought, hundred], l.value?.isSome = true := by
      decide +kernel
    exact hall l hliteral
  obtain ⟨v, hv⟩ := Option.isSome_iff_exists.1
    (haccepted.2 ⟨by decide, fun l hl _ => hliterals l hl⟩)
  have hbeyond : ¬ beyond.Integral := fun h => absurd h.greatest (by decide)
  have hminus : ¬ minusNought.Integral := fun h => h.not_minus_zero rfl
  have hexponent : ¬ hundred.Integral := fun h => Option.some_ne_none _ h.exponent
  refine ⟨receipt_standsIn, v, hv, ?_, (hplace v hv [.item 1] beyond rfl).2 hbeyond,
    (hplace v hv [.item 2] minusNought rfl).2 hminus,
    (hplace v hv [.item 3] hundred rfl).2 hexponent⟩
  obtain ⟨i, hi, hv⟩ := (hplace v hv [.item 0] limit rfl).1
    (Json.Literal.integral_ofInt Int64.maxValue)
  rw [hv, Int64.toInt_inj.1 (hi.trans (show limit.integer = Int64.maxValue.toInt by decide))]

/-! A list can be nested deeper than the reader goes. -/

def boxed : Nat → Value → Value
  | 0, v => v
  | n + 1, v => .list [boxed n v]

namespace Value

variable {v : Value}

theorem nesting_boxed (n : Nat) (v : Value) : (boxed n v).nesting = v.nesting + n := by
  induction n with
  | zero => rfl
  | succ n ih => simp [boxed, nesting, nestingOfItems, ih, Nat.add_assoc]

theorem at?_boxed (n : Nat) (v : Value) :
    (boxed n v).at? (List.replicate n (.item 0)) = some v := by
  induction n with
  | zero => rfl
  | succ n ih => exact ih

end Value

theorem deep_integer_is_lost :
    (boxed 128 (.int 1)).at? (List.replicate 128 (.item 0)) = some (.int 1) ∧
    Value.ofText? (boxed 128 (.int 1)).jsonText = none := by
  refine ⟨Value.at?_boxed 128 _, Value.ofText?_jsonText_eq_none_iff.2 ?_⟩
  rw [Value.nesting_boxed]
  decide

end Workflow
