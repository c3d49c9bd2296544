import Mathlib.Data.List.Nodup
import Workflow.Table

/-! # Workflow.Proofs.Table

Tables by what they hold under each key.

* `Table.get?_ofList`: of the pairs with one key, a table built from them holds the last.
* `Table.ext`: two tables that hold the same are the same.
* `Table.exchange_eq`, `Table.takeOut_eq`: a write and an erasure answer with what the table held
  before.
* `Table.mapValues`: a table with its values changed; it is the same to change the values first and
  then to write them (`mapValues_insert`, `mapValues_ofList`).
* `Table.collect`: a table built all at once from sorted pairs; `collect_eq_ofList` says that it is
  the one built pair by pair.
-/

namespace Workflow

/-! ## The last of several fields -/

/-- The last field with the key. -/
def lastField? {α : Type} (fields : List (String × α)) (key : String) : Option α :=
  fields.reverse.lookup key

section LastField

variable {α β : Type} (fields : List (String × α)) (key : String)

theorem lookup_map_snd (f : α → β) :
    (fields.map fun e => (e.1, f e.2)).lookup key = (fields.lookup key).map f := by
  induction fields with
  | nil => rfl
  | cons e fields ih =>
    rw [List.map_cons, lookup_cons_eq_ite, lookup_cons_eq_ite, ih]
    split <;> rfl

theorem lastField?_map (f : α → β) :
    lastField? (fields.map fun e => (e.1, f e.2)) key = (lastField? fields key).map f := by
  rw [lastField?, ← List.map_reverse, lookup_map_snd, lastField?]

theorem lastField?_cons (e : String × α) :
    lastField? (e :: fields) key =
      (lastField? fields key).or (if key = e.1 then some e.2 else none) := by
  rw [lastField?, List.reverse_cons, List.lookup_append, lookup_cons_eq_ite, List.lookup_nil,
    lastField?]

theorem lastField?_concat (e : String × α) :
    lastField? (fields ++ [e]) key = if key = e.1 then some e.2 else lastField? fields key := by
  rw [lastField?, List.reverse_append, List.reverse_singleton, List.singleton_append,
    lookup_cons_eq_ite, lastField?]

theorem isSome_lastField?_iff :
    (lastField? fields key).isSome = true ↔ key ∈ fields.map Prod.fst := by
  rw [lastField?, isSome_lookup_iff, List.map_reverse, List.mem_reverse]

/-- Fields with other keys do not matter. -/
theorem lastField?_filter :
    lastField? (fields.filter (·.1 == key)) key = lastField? fields key := by
  induction fields with
  | nil => rfl
  | cons e fields ih =>
    by_cases h : e.1 = key
    · rw [List.filter_cons_of_pos (by simp [h]), lastField?_cons, lastField?_cons, ih]
    · rw [List.filter_cons_of_neg (by simp [h]), lastField?_cons, ih, if_neg (Ne.symm h),
        Option.or_none]

end LastField

namespace Table

variable {α β : Type}

/-! ## What a table holds -/

theorem get?_foldl_insert (pairs : List (String × α)) (t : Table α) (key : String) :
    (pairs.foldl (fun t (key, value) => t.insert key value) t).get? key =
      (lastField? pairs key).or (t.get? key) := by
  induction pairs generalizing t with
  | nil => rfl
  | cons p pairs ih =>
    rw [List.foldl_cons, ih, get?_insert, lastField?_cons, Option.or_assoc]
    split <;> rfl

theorem get?_ofList (pairs : List (String × α)) (key : String) :
    (ofList pairs).get? key = lastField? pairs key := by
  simp [ofList, get?_foldl_insert]

theorem lastField?_entries (t : Table α) (key : String) :
    lastField? t.entries key = t.get? key := by
  rw [← get?_ofList, get?, entries_ofList t.sorted, get?]

theorem Sorted.lookup_eq_some_iff {l : List (String × α)} (h : Sorted l) {key : String}
    {value : α} : l.lookup key = some value ↔ (key, value) ∈ l := by
  induction l with
  | nil => simp
  | cons e rest ih =>
    obtain ⟨hlt, hrest⟩ := List.pairwise_cons.1 h
    rw [lookup_cons_eq_ite, List.mem_cons]
    by_cases hkey : key = e.1
    · subst hkey
      -- The key of the first entry stands nowhere behind it.
      have hnot : (e.1, value) ∉ rest := fun hmem => String.lt_irrefl e.1 (hlt (e.1, value) hmem)
      simp [hnot, Prod.ext_iff, eq_comm]
    · simp [hkey, ih hrest, Prod.ext_iff]

theorem get?_eq_some_iff {t : Table α} {key : String} {value : α} :
    t.get? key = some value ↔ (key, value) ∈ t.entries := t.sorted.lookup_eq_some_iff

theorem nodup_entries (t : Table α) : t.entries.Nodup := by
  refine List.Pairwise.imp (fun {a b} hlt heq => ?_) t.sorted
  subst heq
  exact String.lt_irrefl a.1 hlt

/-- Two tables that hold the same under every key are the same. -/
theorem ext {t u : Table α} (h : ∀ key, t.get? key = u.get? key) : t = u := by
  have hperm : t.entries.Perm u.entries := by
    refine (List.perm_ext_iff_of_nodup t.nodup_entries u.nodup_entries).2 fun e => ?_
    rw [← get?_eq_some_iff, ← get?_eq_some_iff, h]
  exact eq_of_entries <| hperm.eq_of_pairwise
    (fun a b _ _ hab hba => absurd hba (String.lt_asymm hab)) t.sorted u.sorted

/-- A second write under a key leaves nothing of the first one. -/
theorem insert_insert (t : Table α) (key : String) (first second : α) :
    (t.insert key first).insert key second = t.insert key second := by
  refine ext fun k => ?_
  rw [get?_insert, get?_insert, get?_insert]
  split <;> rfl

/-! ## What a write and an erasure answer with -/

theorem Sorted.exchangeEntry_fst {l : List (String × α)} (h : Sorted l) (key : String) (value : α) :
    (Table.exchangeEntry key value l).1 = l.lookup key := by
  induction l with
  | nil => rfl
  | cons e rest ih =>
    simp only [Table.exchangeEntry]
    split
    case isTrue hlt => exact (h.lookup_of_lt hlt).symm
    case isFalse =>
      rw [lookup_cons_eq_ite]
      split
      · rfl
      · exact ih (List.pairwise_cons.1 h).2

theorem exchange_eq (t : Table α) (key : String) (value : α) :
    t.exchange key value = (t.get? key, t.insert key value) := by
  refine Prod.ext (t.sorted.exchangeEntry_fst key value) (eq_of_entries ?_)
  simp [exchange, exchangeEntry_snd]

theorem takeOut_eq (t : Table α) (key : String) :
    t.takeOut key = (t.get? key, t.erase key) := by
  refine Prod.ext ?_ (eq_of_entries ?_)
  · simp only [takeOut, t.sorted.takeOutEntry_eq key]
    rfl
  · simp [takeOut, t.sorted.takeOutEntry_eq key]

/-! ## Values changed -/

def mapValues (f : α → β) (t : Table α) : Table β := ⟨t.keys, t.keys_increase, t.row.map f⟩

@[simp] theorem entries_mapValues (f : α → β) (t : Table α) :
    (t.mapValues f).entries = t.entries.map fun e => (e.1, f e.2) := t.row.entries_map f

variable (f : α → β)

theorem map_insertEntry (key : String) (value : α) (l : List (String × α)) :
    (insertEntry key value l).map (fun e => (e.1, f e.2)) =
      insertEntry key (f value) (l.map fun e => (e.1, f e.2)) := by
  induction l with
  | nil => rfl
  | cons e rest ih =>
    simp only [insertEntry, List.map_cons]
    split
    · rfl
    · split
      · rfl
      · rw [List.map_cons, ih]

theorem mapValues_insert (t : Table α) (key : String) (value : α) :
    (t.insert key value).mapValues f = (t.mapValues f).insert key (f value) :=
  eq_of_entries (by simp [map_insertEntry])

theorem mapValues_foldl_insert (pairs : List (String × α)) (t : Table α) :
    (pairs.foldl (fun t (key, value) => t.insert key value) t).mapValues f =
      (pairs.map fun e => (e.1, f e.2)).foldl (fun t (key, value) => t.insert key value)
        (t.mapValues f) := by
  induction pairs generalizing t with
  | nil => rfl
  | cons p pairs ih => rw [List.foldl_cons, ih, mapValues_insert, List.map_cons, List.foldl_cons]

theorem mapValues_ofList (pairs : List (String × α)) :
    (ofList pairs).mapValues f = ofList (pairs.map fun e => (e.1, f e.2)) :=
  mapValues_foldl_insert f pairs empty

/-- Building a table from what another one lists is changing its values. -/
theorem ofList_map_entries (t : Table α) :
    ofList (t.entries.map fun e => (e.1, f e.2)) = t.mapValues f := by
  refine eq_of_entries ?_
  rw [← entries_mapValues, entries_ofList (t.mapValues f).sorted]

/-! ## Built all at once -/

/-- Of neighbours with one key the last. -/
def keepLast : List (String × α) → List (String × α)
  | [] => []
  | [p] => [p]
  | p :: q :: rest => if p.1 = q.1 then keepLast (q :: rest) else p :: keepLast (q :: rest)

theorem mem_of_mem_keepLast {e : String × α} {l : List (String × α)} (h : e ∈ keepLast l) :
    e ∈ l := by
  fun_induction keepLast l with
  | case1 => exact h
  | case2 => exact h
  | case3 p q rest _ ih => exact List.mem_cons_of_mem p (ih h)
  | case4 p q rest _ ih =>
    rcases List.mem_cons.1 h with rfl | h
    · exact List.mem_cons_self
    · exact List.mem_cons_of_mem p (ih h)

theorem sorted_keepLast {l : List (String × α)} (h : l.Pairwise (fun p q => p.1 ≤ q.1)) :
    Sorted (keepLast l) := by
  fun_induction keepLast l with
  | case1 => exact .nil
  | case2 p => exact List.pairwise_singleton _ p
  | case3 p q rest _ ih => exact ih (List.pairwise_cons.1 h).2
  | case4 p q rest hne ih =>
    obtain ⟨hfirst, hrest⟩ := List.pairwise_cons.1 h
    refine List.pairwise_cons.2 ⟨fun d hd => ?_, ih hrest⟩
    have hlt : p.1 < q.1 := Std.lt_of_le_of_ne (hfirst q List.mem_cons_self) hne
    rcases List.mem_cons.1 (mem_of_mem_keepLast hd) with rfl | hd
    · exact hlt
    · exact Std.lt_of_lt_of_le hlt ((List.pairwise_cons.1 hrest).1 d hd)

theorem lookup_keepLast {l : List (String × α)} (h : l.Pairwise (fun p q => p.1 ≤ q.1))
    (key : String) : (keepLast l).lookup key = lastField? l key := by
  fun_induction keepLast l with
  | case1 => rfl
  | case2 p => rfl
  | case3 p q rest heq ih =>
    rw [ih (List.pairwise_cons.1 h).2, lastField?_cons (q :: rest)]
    split
    case isTrue hkey =>
      have hsome : (lastField? (q :: rest) key).isSome = true :=
        (isSome_lastField?_iff _ key).2 (by simp [hkey, heq])
      rw [Option.or_of_isSome hsome]
    case isFalse => rw [Option.or_none]
  | case4 p q rest hne ih =>
    obtain ⟨hfirst, hrest⟩ := List.pairwise_cons.1 h
    rw [lookup_cons_eq_ite, ih hrest, lastField?_cons (q :: rest)]
    split
    case isTrue hkey =>
      -- Behind the first pair all keys are greater.
      have hlt : p.1 < q.1 := Std.lt_of_le_of_ne (hfirst q List.mem_cons_self) hne
      have hnot : key ∉ (q :: rest).map Prod.fst := by
        rintro hmem
        obtain ⟨d, hd, hdkey⟩ := List.exists_of_mem_map hmem
        rcases List.mem_cons.1 hd with rfl | hd
        · exact hne (hkey.symm.trans hdkey.symm)
        · have hle := (List.pairwise_cons.1 hrest).1 d hd
          rw [hdkey, hkey] at hle
          exact String.lt_irrefl p.1 (Std.lt_of_lt_of_le hlt hle)
      have hnone : lastField? (q :: rest) key = none := by
        rw [← Option.not_isSome_iff_eq_none, isSome_lastField?_iff]
        exact hnot
      rw [hnone, Option.none_or]
    case isFalse => rw [Option.or_none]

/-- Sorting by the keys keeps the pairs with one key in their order. -/
theorem filter_mergeSort (pairs : List (String × α)) (key : String) :
    (pairs.mergeSort fun p q => decide (p.1 ≤ q.1)).filter (·.1 == key) =
      pairs.filter (·.1 == key) := by
  have hkey : ∀ p ∈ pairs.filter (·.1 == key), p.1 = key := fun p hp => by
    simpa using (List.mem_filter.1 hp).2
  have hpairwise : (pairs.filter (·.1 == key)).Pairwise
      fun p q => decide (p.1 ≤ q.1) = true :=
    List.pairwise_of_forall_mem_list fun p hp q hq => by
      simp [hkey p hp, hkey q hq]
  have hsublist : (pairs.filter (·.1 == key)).Sublist
      (pairs.mergeSort fun p q => decide (p.1 ≤ q.1)) :=
    List.sublist_mergeSort (fun a b c => by simpa using String.le_trans)
      (fun a b => by simpa using String.le_total a.1 b.1) hpairwise List.filter_sublist
  have hfiltered := hsublist.filter (·.1 == key)
  rw [List.filter_filter] at hfiltered
  simp only [Bool.and_self] at hfiltered
  have hperm := (List.mergeSort_perm pairs fun p q => decide (p.1 ≤ q.1)).filter (·.1 == key)
  exact (hfiltered.eq_of_length hperm.length_eq.symm).symm

theorem pairwise_mergeSort (pairs : List (String × α)) :
    (pairs.mergeSort fun p q => decide (p.1 ≤ q.1)).Pairwise fun p q => p.1 ≤ q.1 := by
  have hsorted : (pairs.mergeSort fun p q => decide (p.1 ≤ q.1)).Pairwise
      fun p q => decide (p.1 ≤ q.1) = true :=
    List.pairwise_mergeSort (fun a b c => by simpa using String.le_trans)
      (fun a b => by simpa using String.le_total a.1 b.1) pairs
  simpa using hsorted

/-- The table of the pairs, put in order first. Pairs with one key keep the order in which they
came, and the last one of them stays. -/
def collect (pairs : List (String × α)) : Table α :=
  ofSorted (keepLast (pairs.mergeSort fun p q => decide (p.1 ≤ q.1)))
    (sorted_keepLast (pairwise_mergeSort pairs))

/-- Building a table all at once is writing the pairs one after the other. -/
theorem collect_eq_ofList (pairs : List (String × α)) : collect pairs = ofList pairs := by
  refine ext fun key => ?_
  rw [get?_ofList, ← lastField?_filter pairs key, ← filter_mergeSort pairs key, lastField?_filter,
    get?, collect, entries_ofSorted]
  exact lookup_keepLast (pairwise_mergeSort pairs) key

end Table
end Workflow
