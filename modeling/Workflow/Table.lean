/-! # Workflow.Table

Finite maps from text keys. The keys of a table increase in the order of their code points, so no
key stands twice and the entries of a table are its listing. A table carries the order of its keys:
there is none whose keys do not increase.

* `Row`: the values that stand under a list of keys, one under each.
* `Table.sorted`, `Table.ofSorted`: the entries of a table are in order, and any entries in order
  are those of a table.
* `Table.get?_insert`, `Table.get?_erase`: what a write does to every key.
* `Table.entries_ofList`: entries in order are put as they stand.
* `Table.mem_keys_iff`, `Table.keys_insert`: the listing of the keys.
-/

namespace Workflow

section Lookup

variable {κ α : Type} [DecidableEq κ]

theorem lookup_cons_eq_ite (e : κ × α) (l : List (κ × α)) (k : κ) :
    (e :: l).lookup k = if k = e.1 then some e.2 else l.lookup k := by
  obtain ⟨k', v⟩ := e
  by_cases h : k = k'
  · simp [h]
  · simp [List.lookup_cons, h, beq_eq_false_iff_ne.2 h]

theorem isSome_lookup_iff (l : List (κ × α)) (k : κ) :
    (l.lookup k).isSome = true ↔ k ∈ l.map Prod.fst := by
  induction l with
  | nil => simp
  | cons e rest ih =>
    rw [lookup_cons_eq_ite]
    by_cases h : k = e.1 <;> simp [h] at ih ⊢

end Lookup

/-! ## Rows -/

/-- Values under the keys of a list, one under each. -/
inductive Row (α : Type) : List String → Type where
  | nil : Row α []
  | cons {key : String} {keys : List String} (value : α) (rest : Row α keys) : Row α (key :: keys)

namespace Row

variable {α β : Type} {keys : List String}

def entries : {keys : List String} → Row α keys → List (String × α)
  | _, nil => []
  | key :: _, cons value rest => (key, value) :: rest.entries

def ofEntries : (entries : List (String × α)) → Row α (entries.map Prod.fst)
  | [] => nil
  | (_, value) :: rest => cons value (ofEntries rest)

def map (f : α → β) : {keys : List String} → Row α keys → Row β keys
  | _, nil => nil
  | _, cons value rest => cons (f value) (rest.map f)

theorem keys_entries (row : Row α keys) : row.entries.map Prod.fst = keys := by
  induction row with
  | nil => rfl
  | cons value rest ih => rw [entries, List.map_cons, ih]

@[simp] theorem entries_ofEntries (l : List (String × α)) : (ofEntries l).entries = l := by
  induction l with
  | nil => rfl
  | cons e rest ih => rw [ofEntries, entries, ih]

@[simp] theorem entries_map (f : α → β) (row : Row α keys) :
    (row.map f).entries = row.entries.map fun e => (e.1, f e.2) := by
  induction row with
  | nil => rfl
  | cons value rest ih => rw [map, entries, entries, ih, List.map_cons]

theorem sizeOf_lt_of_mem [SizeOf α] {row : Row α keys} {e : String × α} (h : e ∈ row.entries) :
    sizeOf e.2 < sizeOf row := by
  induction row with
  | nil => cases h
  | cons value rest ih =>
    rcases List.mem_cons.1 h with rfl | h
    · simp only [cons.sizeOf_spec]
      omega
    · have := ih h
      simp only [cons.sizeOf_spec]
      omega

theorem ext {row row' : Row α keys} (h : row.entries = row'.entries) : row = row' := by
  induction row with
  | nil =>
    cases row'
    rfl
  | cons value rest ih =>
    cases row' with
    | cons value' rest' =>
      obtain ⟨hvalue, hrest⟩ := List.cons.inj h
      obtain rfl : value = value' := (Prod.ext_iff.1 hvalue).2
      rw [ih hrest]

end Row

/-! ## Tables -/

structure Table (α : Type) where
  keys : List String
  keys_increase : keys.Pairwise (· < ·)
  row : Row α keys

namespace Table

variable {α β : Type}

/-- The keys increase strictly. -/
abbrev Sorted (entries : List (String × α)) : Prop := entries.Pairwise fun a b => a.1 < b.1

/-- The table with these entries. -/
def ofSorted (entries : List (String × α)) (h : Sorted entries) : Table α :=
  ⟨entries.map Prod.fst, List.pairwise_map.2 h, .ofEntries entries⟩

def empty : Table α := ofSorted [] .nil

instance : Inhabited (Table α) := ⟨empty⟩

/-- In the order of their keys. -/
def entries (t : Table α) : List (String × α) := t.row.entries

theorem keys_eq (t : Table α) : t.keys = t.entries.map Prod.fst := t.row.keys_entries.symm

theorem sorted (t : Table α) : Sorted t.entries :=
  List.pairwise_map.1 (t.keys_eq ▸ t.keys_increase)

@[simp] theorem entries_empty : (empty : Table α).entries = [] := rfl

@[simp] theorem entries_ofSorted (entries : List (String × α)) (h : Sorted entries) :
    (ofSorted entries h).entries = entries := Row.entries_ofEntries entries

theorem eq_of_entries {t u : Table α} (h : t.entries = u.entries) : t = u := by
  obtain ⟨keys, hkeys, row⟩ := t
  obtain ⟨keys', hkeys', row'⟩ := u
  obtain rfl : keys = keys' := by rw [← row.keys_entries, ← row'.keys_entries]; exact congrArg _ h
  exact congrArg (Table.mk keys hkeys) (Row.ext h)

theorem sizeOf_lt_of_mem [SizeOf α] {t : Table α} {e : String × α} (h : e ∈ t.entries) :
    sizeOf e.2 < sizeOf t := by
  have hrow := Row.sizeOf_lt_of_mem h
  obtain ⟨keys, hkeys, row⟩ := t
  simp only [mk.sizeOf_spec] at hrow ⊢
  omega

def size (t : Table α) : Nat := t.entries.length

def isEmpty (t : Table α) : Bool := t.entries.isEmpty

def get? (t : Table α) (key : String) : Option α := t.entries.lookup key

def contains (t : Table α) (key : String) : Bool := (t.get? key).isSome

/-! ## Entries in order -/

section Entries

/-- Puts the entry in its place; an entry that has the key already gives way. -/
def insertEntry (key : String) (value : α) : List (String × α) → List (String × α)
  | [] => [(key, value)]
  | (k, v) :: rest =>
    if key < k then (key, value) :: (k, v) :: rest
    else if key = k then (key, value) :: rest
    else (k, v) :: insertEntry key value rest

/-- Puts the entry in its place, and takes out the value of one that gives way. -/
def exchangeEntry (key : String) (value : α) : List (String × α) → Option α × List (String × α)
  | [] => (none, [(key, value)])
  | (k, v) :: rest =>
    if key < k then (none, (key, value) :: (k, v) :: rest)
    else if key = k then (some v, (key, value) :: rest)
    else
      let (old, rest) := exchangeEntry key value rest
      (old, (k, v) :: rest)

/-- Takes out the entry with the key, which stands nowhere behind a greater one. -/
def takeOutEntry (key : String) : List (String × α) → Option α × List (String × α)
  | [] => (none, [])
  | (k, v) :: rest =>
    if key < k then (none, (k, v) :: rest)
    else if key = k then (some v, rest)
    else
      let (old, rest) := takeOutEntry key rest
      (old, (k, v) :: rest)

theorem mem_insertEntry {key : String} {value : α} {e : String × α} {l : List (String × α)}
    (h : e ∈ insertEntry key value l) : e = (key, value) ∨ e ∈ l := by
  induction l with
  | nil => simpa [insertEntry] using h
  | cons d rest ih =>
    simp only [insertEntry] at h
    split at h
    · simpa using h
    · split at h
      · rcases List.mem_cons.1 h with rfl | h
        · exact .inl rfl
        · exact .inr (List.mem_cons_of_mem _ h)
      · rcases List.mem_cons.1 h with rfl | h
        · exact .inr List.mem_cons_self
        · exact (ih h).imp id (List.mem_cons_of_mem _)

theorem Sorted.insertEntry {l : List (String × α)} (h : Sorted l) (key : String) (value : α) :
    Sorted (insertEntry key value l) := by
  induction l with
  | nil => exact List.pairwise_singleton _ _
  | cons e rest ih =>
    obtain ⟨k, v⟩ := e
    obtain ⟨hk, hrest⟩ := List.pairwise_cons.1 h
    simp only [Table.insertEntry]
    split
    · rename_i hlt
      refine List.pairwise_cons.2 ⟨fun d hd => ?_, h⟩
      rcases List.mem_cons.1 hd with rfl | hd
      · exact hlt
      · exact String.lt_trans hlt (hk d hd)
    · split
      · rename_i _ heq
        subst heq
        exact List.pairwise_cons.2 ⟨hk, hrest⟩
      · rename_i hlt hne
        refine List.pairwise_cons.2 ⟨fun d hd => ?_, ih hrest⟩
        rcases mem_insertEntry hd with rfl | hd
        · exact Std.lt_of_le_of_ne (String.not_lt.1 hlt) (Ne.symm hne)
        · exact hk d hd

theorem exchangeEntry_snd (key : String) (value : α) (l : List (String × α)) :
    (exchangeEntry key value l).2 = insertEntry key value l := by
  induction l with
  | nil => rfl
  | cons e rest ih =>
    simp only [exchangeEntry, insertEntry]
    split
    · rfl
    · split
      · rfl
      · rw [ih]

theorem Sorted.exchangeEntry {l : List (String × α)} (h : Sorted l) (key : String) (value : α) :
    Sorted (exchangeEntry key value l).2 := by
  rw [exchangeEntry_snd]
  exact h.insertEntry key value

/-- In a sorted list a key does not stand behind a greater one. -/
theorem Sorted.lookup_of_lt {key : String} {e : String × α} {rest : List (String × α)}
    (h : Sorted (e :: rest)) (hlt : key < e.1) : (e :: rest).lookup key = none := by
  refine List.lookup_eq_none_iff.2 fun d hd => ?_
  have hle : key < d.1 := by
    rcases List.mem_cons.1 hd with rfl | hd
    · exact hlt
    · exact String.lt_trans hlt ((List.pairwise_cons.1 h).1 d hd)
  simpa using fun heq : key = d.1 => String.lt_irrefl d.1 (heq ▸ hle)

theorem Sorted.takeOutEntry_eq {l : List (String × α)} (h : Sorted l) (key : String) :
    takeOutEntry key l = (l.lookup key, l.filter (·.1 != key)) := by
  induction l with
  | nil => rfl
  | cons e rest ih =>
    obtain ⟨hfirst, hrest⟩ := List.pairwise_cons.1 h
    have hkeep {k : String} (hlt : ∀ d ∈ rest, k < d.1) : rest.filter (·.1 != k) = rest :=
      List.filter_eq_self.2 fun d hd => by
        simpa using fun heq : d.1 = k => String.lt_irrefl k (heq ▸ hlt d hd)
    simp only [takeOutEntry]
    split
    case isTrue hlt =>
      have hne : e.1 ≠ key := fun heq => String.lt_irrefl key (heq ▸ hlt)
      rw [h.lookup_of_lt hlt, List.filter_cons_of_pos (by simpa using hne),
        hkeep fun d hd => String.lt_trans hlt (hfirst d hd)]
    case isFalse =>
      rw [lookup_cons_eq_ite]
      split
      case isTrue heq =>
        rw [List.filter_cons_of_neg (by simp [heq]), heq, hkeep hfirst]
      case isFalse hne =>
        rw [ih hrest, List.filter_cons_of_pos (by simpa using Ne.symm hne)]

theorem Sorted.takeOutEntry {l : List (String × α)} (h : Sorted l) (key : String) :
    Sorted (takeOutEntry key l).2 := by
  rw [h.takeOutEntry_eq]
  exact h.filter _

end Entries

/-! ## Writes -/

def insert (t : Table α) (key : String) (value : α) : Table α :=
  ofSorted (insertEntry key value t.entries) (t.sorted.insertEntry key value)

def erase (t : Table α) (key : String) : Table α :=
  ofSorted (t.entries.filter (·.1 != key)) (t.sorted.filter _)

/-- A write that answers with the value that stood under the key before. -/
def exchange (t : Table α) (key : String) (value : α) : Option α × Table α :=
  let result := exchangeEntry key value t.entries
  (result.1, ofSorted result.2 (t.sorted.exchangeEntry key value))

/-- An erasure that answers with the value that stood under the key before. -/
def takeOut (t : Table α) (key : String) : Option α × Table α :=
  let result := takeOutEntry key t.entries
  (result.1, ofSorted result.2 (t.sorted.takeOutEntry key))

/-- Of two pairs with one key the later wins. -/
def ofList (pairs : List (String × α)) : Table α :=
  pairs.foldl (fun t (key, value) => t.insert key value) empty

@[simp] theorem entries_insert (t : Table α) (key : String) (value : α) :
    (t.insert key value).entries = insertEntry key value t.entries := entries_ofSorted _ _

@[simp] theorem entries_erase (t : Table α) (key : String) :
    (t.erase key).entries = t.entries.filter (·.1 != key) := entries_ofSorted _ _

@[simp] theorem get?_empty (key : String) : (empty : Table α).get? key = none := rfl

theorem lookup_insertEntry (key : String) (value : α) (k : String) (l : List (String × α)) :
    (insertEntry key value l).lookup k = if k = key then some value else l.lookup k := by
  induction l with
  | nil => simp [insertEntry, lookup_cons_eq_ite]
  | cons e rest ih =>
    simp only [insertEntry]
    split
    · simp [lookup_cons_eq_ite]
    · split <;> grind [lookup_cons_eq_ite]

theorem get?_insert (t : Table α) (key : String) (value : α) (k : String) :
    (t.insert key value).get? k = if k = key then some value else t.get? k := by
  rw [get?, entries_insert, lookup_insertEntry, get?]

theorem lookup_filter_ne (key k : String) (l : List (String × α)) :
    (l.filter (·.1 != key)).lookup k = if k = key then none else l.lookup k := by
  induction l with
  | nil => simp
  | cons e rest ih => by_cases h : e.1 = key <;> grind [lookup_cons_eq_ite]

theorem get?_erase (t : Table α) (key k : String) :
    (t.erase key).get? k = if k = key then none else t.get? k := by
  rw [get?, entries_erase, lookup_filter_ne, get?]

theorem insertEntry_of_lt {key : String} {l : List (String × α)} (h : ∀ e ∈ l, e.1 < key)
    (value : α) : insertEntry key value l = l ++ [(key, value)] := by
  induction l with
  | nil => rfl
  | cons e rest ih =>
    obtain ⟨hlt, hrest⟩ := List.forall_mem_cons.1 h
    simp only [insertEntry]
    rw [if_neg (String.not_lt.2 (Std.le_of_lt hlt)), if_neg (Std.ne_of_lt hlt).symm, ih hrest]
    rfl

/-- Entries in their order stay as they are. -/
theorem entries_ofList {l : List (String × α)} (h : Sorted l) : (ofList l).entries = l := by
  -- The entries that are in the table already stand before those that are yet to come.
  have hfoldl (t : Table α) (pairs : List (String × α)) (h : Sorted (t.entries ++ pairs)) :
      (pairs.foldl (fun (t : Table α) (key, value) => t.insert key value) t).entries =
        t.entries ++ pairs := by
    induction pairs generalizing t with
    | nil => simp
    | cons p pairs ih =>
      have hlt : ∀ e ∈ t.entries, e.1 < p.1 := fun e he =>
        (List.pairwise_append.1 h).2.2 e he p List.mem_cons_self
      have hstep := ih (t.insert p.1 p.2) (by simpa [insertEntry_of_lt hlt] using h)
      simpa [insertEntry_of_lt hlt] using hstep
  exact hfoldl empty l h

/-! ## Keys -/

theorem mem_keys_iff {t : Table α} {key : String} : key ∈ t.keys ↔ (t.get? key).isSome = true := by
  rw [keys_eq, get?, isSome_lookup_iff]

/-- Where a key comes to stand depends on the keys alone. -/
theorem keys_insert {t : Table α} {u : Table β} (h : t.keys = u.keys) (key : String) (v : α)
    (w : β) : (t.insert key v).keys = (u.insert key w).keys := by
  have hentries (l : List (String × α)) (l' : List (String × β))
      (h : l.map Prod.fst = l'.map Prod.fst) :
      (insertEntry key v l).map Prod.fst = (insertEntry key w l').map Prod.fst := by
    induction l generalizing l' with
    | nil =>
      obtain rfl : l' = [] := by simpa using h.symm
      rfl
    | cons e rest ih =>
      cases l' with
      | nil => cases h
      | cons e' rest' =>
        obtain ⟨k, x⟩ := e
        obtain ⟨k', y⟩ := e'
        obtain ⟨rfl, hrest⟩ : k = k' ∧ rest.map Prod.fst = rest'.map Prod.fst := by simpa using h
        simp only [insertEntry]
        split
        · simp [hrest]
        · split
          · simp [hrest]
          · simp [ih rest' hrest]
  rw [keys_eq, keys_eq, entries_insert, entries_insert]
  exact hentries _ _ (by rw [← keys_eq, ← keys_eq, h])

end Table
end Workflow
