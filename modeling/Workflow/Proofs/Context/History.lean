import Workflow.Context
import Workflow.Proofs.Table
import Workflow.Proofs.Text.ByteOrder

/-! # Workflow.Proofs.Context.History

Contexts with a history: where they came from, and the writes made to them since. What a context
holds is told by the last change of each key alone, and the context by what it holds.

* `Context.Write.perform`: a write, with what it answers.
* `Context.History`: the contexts that writes lead to, with the changes made on the way.
* `Context.Canonical`: what can be told of a context from its changes.
* `contexts_are_canonical_maps`: all contexts with a history are told so, every write answers with
  what was there and leaves the other keys alone, and no two of them hold the same.
-/

namespace Workflow
namespace Context

/-! ## Writes -/

/-- What is done to a context. A `put` is an `insert` that answers nothing. -/
inductive Write where
  | insert (key : String) (value : Value)
  | put (key : String) (value : Value)
  | erase (key : String)
  | increment (key : String) (amount : Int64)

/-- What a write answers. -/
inductive Returned where
  | held (old : Option Value)
  | nothing
  | count (n : Int64)

namespace Write

def key : Write → String
  | insert key _ | put key _ | erase key | increment key _ => key

def perform (c : Context) : Write → Returned × Context
  | insert key value =>
    let (old, c) := c.exchange key value
    (.held old, c)
  | put key value => (.nothing, (c.exchange key value).2)
  | erase key =>
    let (old, c) := c.takeOut key
    (.held old, c)
  | increment key amount => (.count (c.incremented key amount), c.increment key amount)

/-- The answer where `held` stands under the key. -/
def returned (held : Option Value) : Write → Returned
  | insert .. | erase _ => .held held
  | put .. => .nothing
  | increment _ amount => .count (saturatingAdd (countOf held) amount)

/-- What stands under the key after the write was answered. -/
def value? : Write → Returned → Option Value
  | insert _ value, _ | put _ value, _ => some value
  | erase _, _ => none
  | increment .., .count n => some (.int n)
  | increment .., _ => none

end Write

/-! ## Histories -/

/-- A key, and what stands under it from then on. -/
abbrev Change := String × Option Value

/-- What stands under a key after the changes, the last of which counts. -/
def after (changes : List Change) (key : String) : Option Value := (lastField? changes key).join

/-- The changes that write the pairs one after the other. -/
def written (pairs : List (String × Value)) : List Change := pairs.map fun p => (p.1, some p.2)

/-- Where a context comes from, with the entries it was built from. -/
inductive Origin : Context → List Change → Prop where
  | empty : Origin Context.empty []
  | ofList (pairs : List (String × Value)) : Origin (Context.ofList pairs) (written pairs)
  | ofJson {fields : List (String × Json)} {c : Context} (h : ofJson? (.object fields) = some c) :
    Origin c (written (Value.fieldsOfJson fields))

/-- A context that writes led to, with all changes from its origin on, the latest last. -/
inductive History : Context → List Change → Prop where
  | origin {c : Context} {changes : List Change} (h : Origin c changes) : History c changes
  | write {c : Context} {changes : List Change} (h : History c changes) (w : Write) :
    History (w.perform c).2 (changes ++ [(w.key, w.value? (w.perform c).1)])

variable {c d : Context} {changes changes' : List Change}

theorem after_concat (changes : List Change) (change : Change) (key : String) :
    after (changes ++ [change]) key = if key = change.1 then change.2 else after changes key := by
  rw [after, lastField?_concat]
  split <;> rfl

theorem after_written (pairs : List (String × Value)) (key : String) :
    after (written pairs) key = lastField? pairs key := by
  rw [after, written, lastField?_map pairs key some]
  cases lastField? pairs key <;> rfl

theorem ofList_eq (pairs : List (String × Value)) :
    Context.ofList pairs = ⟨Table.ofList pairs⟩ :=
  congrArg (fun pairs => Context.mk (Table.ofList pairs)) (List.map_id pairs)

/-! ## One write -/

theorem exchange_eq (c : Context) (key : String) (value : Value) :
    c.exchange key value = (c.get? key, c.insert key value) := by
  rw [exchange, Table.exchange_eq]
  rfl

theorem takeOut_eq (c : Context) (key : String) : c.takeOut key = (c.get? key, c.erase key) := by
  rw [takeOut, Table.takeOut_eq]
  rfl

theorem Write.perform_fst (c : Context) (w : Write) :
    (w.perform c).1 = w.returned (c.get? w.key) := by
  cases w with
  | insert key value => simp only [perform, exchange_eq, returned, Write.key]
  | put key value => rfl
  | erase key => simp only [perform, takeOut_eq, returned, Write.key]
  | increment key amount => rfl

/-- A write changes what stands under its key, and nothing else. -/
theorem Write.get?_perform (c : Context) (w : Write) (key : String) :
    (w.perform c).2.get? key =
      if key = w.key then w.value? (w.perform c).1 else c.get? key := by
  cases w with
  | insert k value =>
    simp only [perform, exchange_eq]
    exact Table.get?_insert c.values k value key
  | put k value =>
    simp only [perform, exchange_eq]
    exact Table.get?_insert c.values k value key
  | erase k =>
    simp only [perform, takeOut_eq]
    exact Table.get?_erase c.values k key
  | increment k amount => exact Table.get?_insert c.values k _ key

/-! ## All writes -/

theorem Origin.get?_eq (h : Origin c changes) (key : String) : c.get? key = after changes key := by
  cases h with
  | empty => rfl
  | ofList pairs =>
    rw [after_written, ofList_eq]
    exact Table.get?_ofList pairs key
  | ofJson h =>
    cases h
    rw [after_written]
    exact Table.get?_ofList _ key

theorem History.get?_eq (h : History c changes) (key : String) :
    c.get? key = after changes key := by
  induction h with
  | origin h => exact h.get?_eq key
  | write h w ih => rw [w.get?_perform, after_concat, ih]

/-! ## What a history tells -/

/-- What can be told of a context from the changes in its history. -/
structure Canonical (c : Context) (changes : List Change) : Prop where
  /-- The keys increase in the order of their bytes, so none stands twice. -/
  keys_increase : c.keys.Pairwise fun a b => utf8 a < utf8 b
  size_eq : c.size = c.keys.length
  isEmpty_iff : c.isEmpty = true ↔ c.keys = []
  mem_keys_iff : ∀ key, key ∈ c.keys ↔ ∃ value, after changes key = some value
  get?_eq : ∀ key, c.get? key = after changes key
  contains_eq : ∀ key, c.contains key = (after changes key).isSome
  getInt?_eq : ∀ key, c.getInt? key = (after changes key).bind Value.asInt?
  getText?_eq : ∀ key, c.getText? key = (after changes key).bind Value.asText?
  getBool?_eq : ∀ key, c.getBool? key = (after changes key).bind Value.asBool?

theorem History.canonical (h : History c changes) : c.Canonical changes where
  keys_increase := c.values.keys_increase.imp utf8_lt_of_lt
  size_eq := by simp [size, keys, Table.size, Table.keys_eq]
  isEmpty_iff := by simp [isEmpty, keys, Table.isEmpty, Table.keys_eq]
  mem_keys_iff key := by
    rw [← h.get?_eq, ← Option.isSome_iff_exists]
    exact Table.mem_keys_iff
  get?_eq := h.get?_eq
  contains_eq key := by
    rw [← h.get?_eq]
    rfl
  getInt?_eq key := by rw [getInt?, h.get?_eq]
  getText?_eq key := by rw [getText?, h.get?_eq]
  getBool?_eq key := by rw [getBool?, h.get?_eq]

/-- Two contexts that hold the same are the same. -/
theorem ext (h : ∀ key, c.get? key = d.get? key) : c = d := congrArg Context.mk (Table.ext h)

/-- The context after the writes, one after the other. -/
def performAll (c : Context) (writes : List Write) : Context :=
  writes.foldl (fun c w => (w.perform c).2) c

/-- Writing pairs to a context, whether the writes answer or not. -/
theorem performAll_map {write : String × Value → Write}
    (h : ∀ c : Context, ∀ p, ((write p).perform c).2 = (c.exchange p.1 p.2).2) (c : Context)
    (pairs : List (String × Value)) : performAll c (pairs.map write) =
      ⟨pairs.foldl (fun t (key, value) => t.insert key value) c.values⟩ := by
  induction pairs generalizing c with
  | nil => rfl
  | cons p pairs ih =>
    simp only [performAll, List.map_cons, List.foldl_cons] at ih ⊢
    rw [h, exchange_eq, ih]
    rfl

end Context

/-- A context is the finite map that its history describes: the keys increase and what stands under
each is the last change of that key. A write answers with what stood under its key, and only that
key changes. Pairs written one by one, with or without an answer, give the context that is built
from them at once. Two contexts that hold the same are listed the same and have the same text,
whatever their histories. -/
theorem contexts_are_canonical_maps :
    (∀ c changes, Context.History c changes →
      c.Canonical changes ∧
      ∀ w : Context.Write,
        (w.perform c).1 = w.returned (c.get? w.key) ∧
        (w.perform c).2.get? w.key = w.value? (w.perform c).1 ∧
        ∀ key, key ≠ w.key → (w.perform c).2.get? key = c.get? key) ∧
    (∀ pairs : List (String × Value),
      ⟨Table.collect pairs⟩ = Context.ofList pairs ∧
      Context.empty.performAll (pairs.map fun p => .put p.1 p.2) = Context.ofList pairs ∧
      Context.empty.performAll (pairs.map fun p => .insert p.1 p.2) = Context.ofList pairs) ∧
    (∀ c d changes changes', Context.History c changes → Context.History d changes' →
      (∀ key, Context.after changes key = Context.after changes' key) →
      c.values.entries = d.values.entries ∧ c.keys = d.keys ∧ c.jsonText = d.jsonText ∧
        c.toJson = d.toJson) := by
  refine ⟨fun c changes h => ⟨h.canonical, fun w => ⟨w.perform_fst c, ?_, fun key hne => ?_⟩⟩,
    fun pairs => ⟨?_, ?_, ?_⟩, fun c d changes changes' hc hd hsame => ?_⟩
  · rw [w.get?_perform, if_pos rfl]
  · rw [w.get?_perform, if_neg hne]
  · rw [Table.collect_eq_ofList, Context.ofList_eq]
  · rw [Context.performAll_map fun _ _ => rfl, Context.ofList_eq]
    rfl
  · rw [Context.performAll_map fun _ _ => rfl, Context.ofList_eq]
    rfl
  · obtain rfl : c = d := Context.ext fun key => by rw [hc.get?_eq, hd.get?_eq, hsame]
    exact ⟨rfl, rfl, rfl, rfl⟩

/-- Pairs in which a key comes twice. Of the keys the last is before that one as bytes, and would be
behind it in UTF-16. -/
def scored : List (String × Value) :=
  [("𝄞", .int 1), ("z", .null), ("𝄞", .int 3), ("\uffee", .text "ab")]

/-- The fields of a document with the same key twice. -/
def scoredFields : List (String × Json) := [("𝄞", .integer 2), ("𝄞", .integer 3)]

theorem after_scored (key : String) :
    Context.after (Context.written scored ++ [("z", none)]) key =
      Context.after (Context.written (Value.fieldsOfJson scoredFields) ++
        [("\uffee", some (.text "ab"))]) key := by
  by_cases hz : key = "z"
  · subst hz
    rfl
  by_cases hclef : key = "𝄞"
  · subst hclef
    rfl
  by_cases hwide : key = "\uffee"
  · subst hwide
    rfl
  · simp [Context.after_concat, Context.after_written, scored, scoredFields, Value.fieldsOfJson,
      lastField?_cons, hz, hclef, hwide]

/-- The context built from the pairs, less one of them, and that which is read from the document and
written to, are the same. -/
theorem scored_histories_meet :
    let built := Context.ofList scored
    let pruned := ((Context.Write.erase "z").perform built).2
    let read : Context := ⟨Table.ofList (Value.fieldsOfJson scoredFields)⟩
    let grown := ((Context.Write.insert "\uffee" (.text "ab")).perform read).2
    built.Canonical (Context.written scored) ∧ built.keys = ["z", "\uffee", "𝄞"] ∧
    ((Context.Write.erase "z").perform built).1 = .held (some .null) ∧
    pruned.get? "z" = none ∧ pruned.get? "𝄞" = some (.int 3) ∧
    Context.empty.performAll (scored.map fun p => .insert p.1 p.2) = built ∧
    pruned.keys = grown.keys ∧ pruned.jsonText = grown.jsonText := by
  intro built pruned read grown
  obtain ⟨hhistory, hpairs, hsame⟩ := contexts_are_canonical_maps
  have hbuilt : Context.History built (Context.written scored) := .origin (.ofList scored)
  have hread : Context.History read (Context.written (Value.fieldsOfJson scoredFields)) :=
    .origin (@Context.Origin.ofJson scoredFields _ rfl)
  obtain ⟨hcanonical, hwrite⟩ := hhistory _ _ hbuilt
  obtain ⟨hreturned, herased, hothers⟩ := hwrite (.erase "z")
  obtain ⟨-, hkeys, htext, -⟩ := hsame pruned grown _ _ (hbuilt.write (.erase "z"))
    (hread.write (.insert "\uffee" (.text "ab"))) after_scored
  exact ⟨hcanonical, rfl, hreturned.trans rfl, herased, (hothers "𝄞" (by decide)).trans rfl,
    (hpairs scored).2.2, hkeys, htext⟩

end Workflow
