import Workflow.Proofs.Json.Reader
import Workflow.Proofs.Json.Written

/-! # Workflow.Proofs.Json.Grammar

The reader takes what the grammar describes and nothing else. In front of the text of a document it
reads that document, whatever comes after that does not go on a number, unless a number in it is not
accepted or it is nested deeper than the reader goes.

* `Reader.items_listed`, `Reader.exists_of_itemsFrom`: items with commas between them.
* `Written.takes_value`, `Reader.exists_of_value`: a value.
* `Written.StandsIn.ofText?`, `Written.exists_of_ofText?`: a whole text.
-/

namespace Workflow
namespace Json

/-! ## Blanks -/

section Blanks

variable {before rest : List Char} {c : Char}

theorem Blank.append (h : Blank before) (hrest : Blank rest) : Blank (before ++ rest) :=
  fun c hc => (List.mem_append.1 hc).elim (h c) (hrest c)

theorem Blank.skipSpace_append (h : Blank before) (rest : List Char) :
    Reader.skipSpace (before ++ rest) = Reader.skipSpace rest :=
  List.dropWhile_append_of_pos h

theorem Blank.skipSpace_cons (h : Blank before) (hc : Reader.isSpace c = false)
    (rest : List Char) : Reader.skipSpace (before ++ c :: rest) = c :: rest := by
  rw [h.skipSpace_append, Reader.skipSpace_cons hc]

theorem exists_of_skipSpace {input tail : List Char} (h : Reader.skipSpace input = tail) :
    ∃ before, Blank before ∧ input = before ++ tail :=
  ⟨input.takeWhile Reader.isSpace, fun _ hc => List.mem_takeWhile_imp hc,
    h ▸ List.takeWhile_append_dropWhile.symm⟩

/-- A blank goes on no number. -/
theorem Blank.ends_append (h : Blank before) (hrest : Spelling.Ends rest) :
    Spelling.Ends (before ++ rest) := by
  cases before with
  | nil => exact hrest
  | cons c before =>
    rintro _ ⟨⟩
    have hc : Reader.isSpace c = true := h c List.mem_cons_self
    simp only [Reader.isSpace, Bool.or_eq_true, beq_iff_eq] at hc
    rcases hc with ((rfl | rfl) | rfl) | rfl <;> decide

theorem Blank.ends (h : Blank before) : Spelling.Ends before :=
  List.append_nil before ▸ h.ends_append Spelling.ends_nil

end Blanks

/-! ## Parts with commas between them -/

namespace Reader

section Items

variable {α β : Type} {spells : α → List Char → Prop} {item : List Char → Option (β × List Char)}
  {result : α → Option β} {close : Char} {xs : List α} {inner : List Char}

/-- In front of a text of `x` the reader `item` gives the result for `x`. -/
def Takes (item : List Char → Option (β × List Char)) (spells : α → List Char → Prop)
    (result : α → Option β) (x : α) : Prop :=
  ∀ text, spells x text → ∀ before rest, Blank before → Spelling.Ends rest →
    item (before ++ (text ++ rest)) = (result x).map fun y => (y, rest)

theorem mapM_cons_none {x : α} (h : result x = none) (xs : List α) :
    (x :: xs).mapM result = none := by
  rw [List.mapM_cons, h]
  rfl

theorem mapM_cons_some {x : α} {y : β} (h : result x = some y) (xs : List α) :
    (x :: xs).mapM result = (xs.mapM result).map (y :: ·) := by
  rw [List.mapM_cons, h]
  cases xs.mapM result <;> rfl

theorem length_le_of_listed (h : Listed spells xs inner) : xs.length ≤ inner.length + 1 := by
  induction h with
  | none => exact Nat.zero_le _
  | one => exact Nat.le_add_left 1 _
  | cons _ _ _ _ ih =>
    simp only [List.length_append, List.length_cons] at ih ⊢
    omega

theorem itemsFrom_listed (hspace : isSpace close = false) (hcomma : close ≠ ',')
    (hends : ∀ rest, Spelling.Ends (close :: rest)) (h : Listed spells xs inner)
    (hitem : ∀ x ∈ xs, Takes item spells result x) (hxs : xs ≠ []) {fuel : Nat}
    (hfuel : xs.length ≤ fuel) (rest : List Char) :
    itemsFrom item close fuel (inner ++ close :: rest) =
      (xs.mapM result).map fun ys => (ys, rest) := by
  induction h generalizing fuel with
  | none => exact absurd rfl hxs
  | @one x before text after hbefore hx hafter =>
    obtain ⟨fuel, rfl⟩ : ∃ n, fuel = n + 1 := ⟨fuel - 1, by simp at hfuel; omega⟩
    have hread := hitem x (by simp) text hx before (after ++ close :: rest) hbefore
      (hafter.ends_append (hends rest))
    rw [List.append_assoc, List.append_assoc, itemsFrom, hread]
    cases hresult : result x with
    | none => rw [mapM_cons_none hresult]; rfl
    | some y => simp [mapM_cons_some hresult, hafter.skipSpace_cons hspace]
  | @cons x y xs before text after more hbefore hx hafter hmore ih =>
    obtain ⟨fuel, rfl⟩ : ∃ n, fuel = n + 1 := ⟨fuel - 1, by simp at hfuel; omega⟩
    have hblank : isSpace ',' = false := by decide
    have hread := hitem x (by simp) text hx before (after ++ ',' :: (more ++ close :: rest))
      hbefore (hafter.ends_append (Spelling.ends_cons (by decide) _))
    have hrest := ih (fun z hz => hitem z (List.mem_cons_of_mem x hz)) (by simp)
      (by simpa using hfuel)
    simp only [List.append_assoc, List.cons_append] at hread ⊢
    rw [itemsFrom, hread]
    cases hresult : result x with
    | none => rw [mapM_cons_none hresult]; rfl
    | some z =>
      rw [mapM_cons_some hresult]
      simp only [Option.map_some, Option.bind_eq_bind, Option.bind_some,
        hafter.skipSpace_cons hblank, if_neg hcomma.symm, if_true, hrest]
      cases (y :: xs).mapM result <;> rfl

/-- The first part stands in front, but for blanks. -/
theorem opening_of_listed {x : α} (h : Listed spells (x :: xs) inner)
    (hopens : ∀ text, spells x text → Opens close text) :
    ∃ c tail, Listed spells (x :: xs) (c :: tail) ∧ c ≠ close ∧
      ∀ rest, skipSpace (inner ++ rest) = c :: (tail ++ rest) := by
  cases h with
  | @one _ before text after hbefore hx hafter =>
    obtain ⟨c, tail, rfl, hspace, hclose⟩ := hopens text hx
    refine ⟨c, tail ++ after, .one blank_nil hx hafter, hclose, fun rest => ?_⟩
    rw [List.append_assoc, hbefore.skipSpace_append]
    exact skipSpace_cons hspace _
  | @cons _ y xs before text after more hbefore hx hafter hmore =>
    obtain ⟨c, tail, rfl, hspace, hclose⟩ := hopens text hx
    refine ⟨c, tail ++ (after ++ ',' :: more), .cons blank_nil hx hafter hmore, hclose,
      fun rest => ?_⟩
    rw [List.append_assoc, hbefore.skipSpace_append]
    exact skipSpace_cons hspace _

theorem items_listed (hspace : isSpace close = false) (hcomma : close ≠ ',')
    (hends : ∀ rest, Spelling.Ends (close :: rest)) (h : Listed spells xs inner)
    (hopens : ∀ x ∈ xs, ∀ text, spells x text → Opens close text)
    (hitem : ∀ x ∈ xs, Takes item spells result x) (rest : List Char) :
    items item close (inner ++ close :: rest) = (xs.mapM result).map fun ys => (ys, rest) := by
  cases xs with
  | nil =>
    cases h with
    | none hbefore => simp [items, hbefore.skipSpace_cons hspace]
  | cons x xs =>
    obtain ⟨c, tail, hlisted, hclose, hskip⟩ := opening_of_listed h (hopens x (by simp))
    have hlength := length_le_of_listed h
    have hread := itemsFrom_listed hspace hcomma hends hlisted hitem (by simp)
      (show (x :: xs).length ≤ (inner ++ close :: rest).length + 1 by
        simp only [List.length_append, List.length_cons] at hlength ⊢
        omega) rest
    simp only [items, hskip, if_neg hclose]
    exact hread

theorem exists_of_itemsFrom
    (hitem : ∀ input y rest, item input = some (y, rest) →
      ∃ x before text, Blank before ∧ spells x text ∧ input = before ++ (text ++ rest))
    {fuel : Nat} {input rest : List Char} {ys : List β}
    (h : itemsFrom item close fuel input = some (ys, rest)) :
    ∃ x xs inner, Listed spells (x :: xs) inner ∧ input = inner ++ close :: rest := by
  induction fuel generalizing input ys with
  | zero => cases h
  | succ fuel ih =>
    simp only [itemsFrom, Option.bind_eq_bind, Option.bind_eq_some_iff] at h
    obtain ⟨⟨y, tail⟩, hy, h⟩ := h
    obtain ⟨x, before, text, hbefore, hx, rfl⟩ := hitem _ _ _ hy
    cases hskip : skipSpace tail with
    | nil => simp [hskip] at h
    | cons c tail' =>
      obtain ⟨after, hafter, rfl⟩ := exists_of_skipSpace hskip
      simp only [hskip] at h
      by_cases hclose : c = close
      · rw [if_pos hclose] at h
        cases h
        exact ⟨x, [], _, .one hbefore hx hafter, by simp [hclose]⟩
      · rw [if_neg hclose] at h
        by_cases hcomma : c = ','
        · rw [if_pos hcomma] at h
          obtain ⟨⟨more, tail⟩, hmore, h⟩ := Option.bind_eq_some_iff.1 h
          cases h
          obtain ⟨y, xs, inner, hlisted, rfl⟩ := ih hmore
          exact ⟨x, y :: xs, _, .cons hbefore hx hafter hlisted, by simp [hcomma]⟩
        · rw [if_neg hcomma] at h
          cases h

theorem exists_of_items
    (hitem : ∀ input y rest, item input = some (y, rest) →
      ∃ x before text, Blank before ∧ spells x text ∧ input = before ++ (text ++ rest))
    {input rest : List Char} {ys : List β} (h : items item close input = some (ys, rest)) :
    ∃ xs inner, Listed spells xs inner ∧ input = inner ++ close :: rest := by
  cases hskip : skipSpace input with
  | nil => simp [items, hskip] at h
  | cons c tail =>
    obtain ⟨before, hbefore, rfl⟩ := exists_of_skipSpace hskip
    simp only [items, hskip] at h
    by_cases hclose : c = close
    · rw [if_pos hclose] at h
      cases h
      exact ⟨[], before, .none hbefore, by rw [hclose]⟩
    · rw [if_neg hclose] at h
      obtain ⟨x, xs, inner, hlisted, hinput⟩ := exists_of_itemsFrom hitem h
      refine ⟨x :: xs, before ++ inner, ?_, by rw [hinput, List.append_assoc]⟩
      cases hlisted with
      | one hfirst hx hafter =>
        rw [← List.append_assoc]
        exact .one (hbefore.append hfirst) hx hafter
      | cons hfirst hx hafter hmore =>
        rw [← List.append_assoc]
        exact .cons (hbefore.append hfirst) hx hafter hmore

/-! ## Fields -/

theorem takes_field {value : List Char → Option (β × List Char)} {f : String × α}
    (h : Takes value spells result f.2) :
    Takes (field value) (FieldSpells spells) (fun f => (result f.2).map (Prod.mk f.1)) f := by
  intro text hf before rest hbefore hrest
  cases hf with
  | @mk key x marks before' after text hkey hbefore' hafter hvalue =>
    have hquote : isSpace '"' = false := by decide
    have hcolon : isSpace ':' = false := by decide
    have hread := h text hvalue after rest hafter hrest
    have hmarks := Quoted.read_marks hkey (before' ++ ':' :: (after ++ (text ++ rest)))
    simp only [field, List.cons_append, List.append_assoc, hbefore.skipSpace_cons hquote, hmarks,
      Option.bind_eq_bind, Option.bind_some, hbefore'.skipSpace_cons hcolon, hread,
      String.ofList_toList]
    cases result x <;> rfl

theorem exists_of_field {value : List Char → Option (β × List Char)}
    (hvalue : ∀ input y rest, value input = some (y, rest) →
      ∃ x before text, Blank before ∧ spells x text ∧ input = before ++ (text ++ rest))
    {input rest : List Char} {y : String × β} (h : field value input = some (y, rest)) :
    ∃ f before text, Blank before ∧ FieldSpells spells f text ∧ input = before ++ (text ++ rest) := by
  unfold field at h
  split at h
  case h_1 _ tail hskip =>
    obtain ⟨⟨key, tail'⟩, hkey, hfield⟩ := Option.bind_eq_some_iff.1 h
    simp only [] at hfield
    split at hfield
    case h_1 _ tail'' hskip' =>
      obtain ⟨⟨z, tail⟩, hz, hpair⟩ := Option.bind_eq_some_iff.1 hfield
      obtain ⟨rfl, rfl⟩ := Prod.mk.inj (Option.some.inj hpair)
      obtain ⟨before, hbefore, hinput⟩ := exists_of_skipSpace hskip
      obtain ⟨marks, hmarks, hquoted⟩ := Quoted.exists_of_read hkey
      obtain ⟨before', hbefore', hcolon⟩ := exists_of_skipSpace hskip'
      obtain ⟨x, after, text, hafter, hx, htext⟩ := hvalue _ _ _ hz
      refine ⟨(key, x), before, _, hbefore, .mk hmarks hbefore' hafter hx, ?_⟩
      simp [hinput, hquoted, hcolon, htext]
    case h_2 => cases hfield
  case h_2 => cases h

end Items

/-! ## Scalars -/

theorem scalar_marks {s : String} {marks : List Char} (h : Quoted.Marks s.toList marks)
    (rest : List Char) : scalar ('"' :: (marks ++ '"' :: rest)) = some (.string s, rest) := by
  have hread := Quoted.read_marks h rest
  rw [String.ofList_toList] at hread
  simp [scalar, hread]

theorem exists_of_scalar {input rest : List Char} {json : Json}
    (h : scalar input = some (json, rest)) :
    ∃ w text, Written.Spells w text ∧ input = text ++ rest := by
  unfold scalar at h
  split at h
  case h_1 => cases h; exact ⟨_, _, .null, rfl⟩
  case h_2 => cases h; exact ⟨_, _, .bool true, rfl⟩
  case h_3 => cases h; exact ⟨_, _, .bool false, rfl⟩
  case h_4 =>
    obtain ⟨⟨s, tail⟩, hread, hpair⟩ := Option.bind_eq_some_iff.1 h
    obtain ⟨rfl, rfl⟩ := Prod.mk.inj (Option.some.inj hpair)
    obtain ⟨marks, hmarks, hquoted⟩ := Quoted.exists_of_read hread
    exact ⟨_, _, .string hmarks, by simp [hquoted]⟩
  case h_5 =>
    simp only [Option.bind_eq_bind, Option.bind_eq_some_iff] at h
    obtain ⟨⟨spelling, tail⟩, hread, number, -, h⟩ := h
    obtain ⟨l, rfl, -⟩ := Literal.exists_of_read hread
    cases h
    exact ⟨_, _, .number l, rfl⟩

end Reader

/-! ## Values -/

namespace Written

variable {text : List Char} {w : Written} {depth : Nat}

theorem front_of_number {c : Char} (h : c = '-' ∨ c.isDigit = true) :
    Reader.isSpace c = false ∧ c ∉ ['[', '\x7b', ']', '\x7d'] := by
  rcases h with rfl | h
  · decide
  · refine ⟨Bool.eq_false_iff.2 fun hspace => ?_, fun hmem => ?_⟩
    · simp only [Reader.isSpace, Bool.or_eq_true, beq_iff_eq] at hspace
      rcases hspace with ((rfl | rfl) | rfl) | rfl <;> cases h
    · simp only [List.mem_cons, List.not_mem_nil, or_false] at hmem
      rcases hmem with rfl | rfl | rfl | rfl <;> cases h

/-- The text of a document opens with neither a blank nor a closing bracket. -/
theorem Spells.opens (h : w.Spells text) {close : Char} (hclose : close = ']' ∨ close = '\x7d') :
    Reader.Opens close text := by
  cases h with
  | null => rcases hclose with rfl | rfl <;> exact ⟨_, _, rfl, by decide⟩
  | bool b => rcases hclose with rfl | rfl <;> cases b <;> exact ⟨_, _, rfl, by decide⟩
  | number l =>
    obtain ⟨c, tail, hchars, hc⟩ := l.head_chars
    obtain ⟨hspace, hbracket⟩ := front_of_number hc
    refine ⟨c, tail, hchars, hspace, ?_⟩
    rcases hclose with rfl | rfl <;> exact fun hc => hbracket (by simp [hc])
  | string | array | object =>
    rcases hclose with rfl | rfl <;> exact ⟨_, _, rfl, by decide⟩

/-- The document, if it is nested no deeper. -/
def upTo (depth : Nat) (w : Written) : Option Json := if w.nesting ≤ depth then w.json? else none

theorem upTo_of_nesting (h : w.nesting = 0) : upTo depth w = w.json? :=
  if_pos (h ▸ Nat.zero_le depth)

theorem mapM_upTo (items : List Written) (depth : Nat) :
    items.mapM (upTo depth) =
      if nestingOfItems items ≤ depth then itemsJson? items else none := by
  induction items with
  | nil => simp [nestingOfItems, itemsJson?]
  | cons item items ih =>
    simp only [nestingOfItems, itemsJson?, Nat.max_le]
    by_cases hitem : item.nesting ≤ depth
    · have hupTo : upTo depth item = item.json? := if_pos hitem
      rw [List.mapM_cons, ih, hupTo]
      by_cases hitems : nestingOfItems items ≤ depth
      · rw [if_pos hitems, if_pos ⟨hitem, hitems⟩]
      · rw [if_neg hitems, if_neg fun h => hitems h.2]
        cases item.json? <;> rfl
    · have hnone : upTo depth item = none := if_neg hitem
      rw [Reader.mapM_cons_none hnone, if_neg fun h => hitem h.1]

theorem mapM_upTo_fields (fields : List (String × Written)) (depth : Nat) :
    fields.mapM (fun f => (upTo depth f.2).map (Prod.mk f.1)) =
      if nestingOfFields fields ≤ depth then fieldsJson? fields else none := by
  induction fields with
  | nil => simp [nestingOfFields, fieldsJson?]
  | cons f fields ih =>
    simp only [nestingOfFields, fieldsJson?, Nat.max_le]
    by_cases hvalue : f.2.nesting ≤ depth
    · have hupTo : upTo depth f.2 = f.2.json? := if_pos hvalue
      rw [List.mapM_cons, ih, hupTo]
      by_cases hfields : nestingOfFields fields ≤ depth
      · rw [if_pos hfields, if_pos ⟨hvalue, hfields⟩]
        cases f.2.json? <;> rfl
      · rw [if_neg hfields, if_neg fun h => hfields h.2]
        cases f.2.json? <;> rfl
    · have hnone : (upTo depth f.2).map (Prod.mk f.1) = none := by
        rw [upTo, if_neg hvalue, Option.map_none]
      rw [List.mapM_cons, hnone, if_neg fun h => hvalue h.1]
      rfl

theorem upTo_array_succ (items : List Written) (depth : Nat) :
    upTo (depth + 1) (.array items) = (items.mapM (upTo depth)).map .array := by
  rw [mapM_upTo]
  simp only [upTo, nesting, Nat.add_le_add_iff_right, json?]
  split <;> rfl

theorem upTo_object_succ (fields : List (String × Written)) (depth : Nat) :
    upTo (depth + 1) (.object fields) =
      (fields.mapM fun f => (upTo depth f.2).map (Prod.mk f.1)).map .object := by
  rw [mapM_upTo_fields]
  simp only [upTo, nesting, Nat.add_le_add_iff_right, json?]
  split <;> rfl

/-- A value that is no list and no object is read as it is, however deep. -/
theorem takes_of_scalar {c : Char} {tail : List Char} (hc : Reader.isSpace c = false)
    (hbracket : c ≠ '[' ∧ c ≠ '\x7b')
    (hscalar : ∀ rest, Spelling.Ends rest →
      Reader.scalar (c :: (tail ++ rest)) = w.json?.map fun json => (json, rest))
    {before rest : List Char} (hbefore : Blank before) (hrest : Spelling.Ends rest) (depth : Nat) :
    Reader.value depth (before ++ (c :: tail ++ rest)) = w.json?.map fun json => (json, rest) := by
  have hskip := hbefore.skipSpace_cons hc (tail ++ rest)
  have hplain : Reader.Plain (before ++ c :: (tail ++ rest)) := by
    intro tail
    rw [hskip]
    exact ⟨fun h => hbracket.1 (List.cons.inj h).1, fun h => hbracket.2 (List.cons.inj h).1⟩
  rw [List.cons_append, Reader.value_of_other hplain, hskip, hscalar rest hrest]

theorem takes_array {items : List Written}
    (h : ∀ item ∈ items, ∀ depth, Reader.Takes (Reader.value depth) Spells (upTo depth) item)
    (depth : Nat) : Reader.Takes (Reader.value depth) Spells (upTo depth) (.array items) := by
  intro text hspells before rest hbefore _
  cases hspells with
  | @array _ inner hlisted =>
    have hspace : Reader.isSpace '[' = false := by decide
    have hskip := hbefore.skipSpace_cons hspace (inner ++ (']' :: rest))
    rw [List.cons_append, List.append_assoc, List.singleton_append]
    cases depth with
    | zero => exact Reader.value_zero_of_bracket hskip
    | succ depth =>
      have hread := Reader.items_listed (by decide) (by decide) (Spelling.ends_cons (by decide))
        hlisted (fun _ _ _ hspells => hspells.opens (.inl rfl))
        (fun item hitem => h item hitem depth) rest
      rw [Reader.value_of_bracket hskip, hread, upTo_array_succ]
      cases items.mapM (upTo depth) <;> rfl

theorem takes_object {fields : List (String × Written)}
    (h : ∀ f ∈ fields, ∀ depth, Reader.Takes (Reader.value depth) Spells (upTo depth) f.2)
    (depth : Nat) : Reader.Takes (Reader.value depth) Spells (upTo depth) (.object fields) := by
  intro text hspells before rest hbefore _
  cases hspells with
  | @object _ inner hlisted =>
    have hspace : Reader.isSpace '\x7b' = false := by decide
    have hskip := hbefore.skipSpace_cons hspace (inner ++ ('\x7d' :: rest))
    rw [List.cons_append, List.append_assoc, List.singleton_append]
    cases depth with
    | zero => exact Reader.value_zero_of_brace hskip
    | succ depth =>
      have hopens : ∀ f ∈ fields, ∀ text, FieldSpells Spells f text →
          Reader.Opens '\x7d' text := by
        intro _ _ _ hspells
        cases hspells
        exact ⟨_, _, rfl, by decide⟩
      have hread := Reader.items_listed (by decide) (by decide) (Spelling.ends_cons (by decide))
        hlisted hopens (fun f hf => Reader.takes_field (h f hf depth)) rest
      rw [Reader.value_of_brace hskip, hread, upTo_object_succ]
      cases fields.mapM (fun f => (upTo depth f.2).map (Prod.mk f.1)) <;> rfl

/-- In front of the text of a document the reader takes this document, unless it is nested too deep
or a number in it is not accepted. -/
theorem takes_value (w : Written) (depth : Nat) :
    Reader.Takes (Reader.value depth) Spells (upTo depth) w := by
  induction w generalizing depth with
  | null =>
    intro text h before rest hbefore hrest
    cases h
    exact takes_of_scalar (w := .null) (by decide) (by decide) (fun _ _ => rfl) hbefore hrest depth
  | bool b =>
    intro text h before rest hbefore hrest
    cases h
    cases b
    · exact takes_of_scalar (w := .bool false) (by decide) (by decide) (fun _ _ => rfl) hbefore
        hrest depth
    · exact takes_of_scalar (w := .bool true) (by decide) (by decide) (fun _ _ => rfl) hbefore
        hrest depth
  | number l =>
    intro text h before rest hbefore hrest
    cases h
    obtain ⟨c, tail, hchars, hc⟩ := l.head_chars
    obtain ⟨hspace, hbracket⟩ := front_of_number hc
    simp only [List.mem_cons, not_or] at hbracket
    rw [upTo_of_nesting rfl, hchars]
    refine takes_of_scalar hspace ⟨hbracket.1, hbracket.2.1⟩ (fun rest hrest => ?_) hbefore hrest
      depth
    have hread := Reader.scalar_literal hrest l
    rwa [hchars] at hread
  | string s =>
    intro text h before rest hbefore hrest
    cases h with
    | @string _ marks hmarks =>
      refine takes_of_scalar (w := .string s) (by decide) (by decide) (fun rest _ => ?_) hbefore hrest
        depth
      rw [List.append_assoc]
      exact Reader.scalar_marks hmarks rest
  | array items ih => exact takes_array ih depth
  | object fields ih => exact takes_object ih depth

end Written

/-- What the reader takes is the text of a document, with blanks in front of it. -/
theorem Reader.exists_of_value {depth : Nat} {input rest : List Char} {json : Json}
    (h : Reader.value depth input = some (json, rest)) :
    ∃ w before text, Blank before ∧ Written.Spells w text ∧ input = before ++ (text ++ rest) := by
  induction depth generalizing input json rest with
  | zero =>
    rcases Reader.opening_cases input with ⟨tail, hopen⟩ | ⟨tail, hopen⟩ | hopen
    · rw [Reader.value_zero_of_bracket hopen] at h
      cases h
    · rw [Reader.value_zero_of_brace hopen] at h
      cases h
    · rw [Reader.value_of_other hopen] at h
      obtain ⟨w, text, hspells, hinput⟩ := Reader.exists_of_scalar h
      obtain ⟨before, hbefore, rfl⟩ := exists_of_skipSpace hinput
      exact ⟨w, before, text, hbefore, hspells, rfl⟩
  | succ depth ih =>
    rcases Reader.opening_cases input with ⟨tail, hopen⟩ | ⟨tail, hopen⟩ | hopen
    · rw [Reader.value_of_bracket hopen] at h
      obtain ⟨⟨values, _⟩, hitems, hjson⟩ := Option.map_eq_some_iff.1 h
      obtain ⟨rfl, rfl⟩ := Prod.mk.inj hjson
      obtain ⟨before, hbefore, rfl⟩ := exists_of_skipSpace hopen
      obtain ⟨items, inner, hlisted, rfl⟩ := Reader.exists_of_items (fun _ _ _ => ih) hitems
      exact ⟨.array items, before, _, hbefore, .array hlisted, by simp⟩
    · rw [Reader.value_of_brace hopen] at h
      obtain ⟨⟨values, _⟩, hitems, hjson⟩ := Option.map_eq_some_iff.1 h
      obtain ⟨rfl, rfl⟩ := Prod.mk.inj hjson
      obtain ⟨before, hbefore, rfl⟩ := exists_of_skipSpace hopen
      obtain ⟨fields, inner, hlisted, rfl⟩ := Reader.exists_of_items
        (fun _ _ _ => Reader.exists_of_field fun _ _ _ => ih) hitems
      exact ⟨.object fields, before, _, hbefore, .object hlisted, by simp⟩
    · rw [Reader.value_of_other hopen] at h
      obtain ⟨w, text, hspells, hinput⟩ := Reader.exists_of_scalar h
      obtain ⟨before, hbefore, rfl⟩ := exists_of_skipSpace hinput
      exact ⟨w, before, text, hbefore, hspells, rfl⟩

/-! ## Whole texts -/

namespace Written

variable {w : Written} {text : String}

/-- The text of a document is read as this document, unless it is nested too deep or a number in it
is not accepted. -/
theorem StandsIn.ofText? (h : w.StandsIn text) :
    Json.ofText? text = if w.nesting ≤ Reader.maxDepth then w.json? else none := by
  obtain ⟨before, inner, after, hbefore, hspells, hafter, htext⟩ := h
  have hread := takes_value w Reader.maxDepth inner hspells before after hbefore hafter.ends
  have hskip : Reader.skipSpace after = [] := by
    have := hafter.skipSpace_append []
    rwa [List.append_nil] at this
  rw [Json.ofText?, Json.ofChars?, htext, hread, upTo]
  cases (if w.nesting ≤ Reader.maxDepth then w.json? else none) <;> simp [hskip]

/-- Every text that is read is the text of a document. -/
theorem exists_of_ofText? {json : Json} (h : Json.ofText? text = some json) :
    ∃ w : Written, w.StandsIn text := by
  simp only [Json.ofText?, Json.ofChars?, Option.bind_eq_bind, Option.bind_eq_some_iff] at h
  obtain ⟨⟨value, rest⟩, hread, h⟩ := h
  obtain ⟨w, before, inner, hbefore, hspells, hinput⟩ := Reader.exists_of_value hread
  have hrest : Reader.skipSpace rest = [] := by
    by_contra hne
    simp [hne] at h
  obtain ⟨after, hafter, hafterEq⟩ := exists_of_skipSpace hrest
  rw [List.append_nil] at hafterEq
  exact ⟨w, before, inner, after, hbefore, hspells, hafter, hafterEq ▸ hinput⟩

end Written
end Json
end Workflow
