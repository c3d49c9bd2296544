import Workflow.Proofs.Draining

/-! # Workflow.Proofs.Sharing

Queues that share tasks. What is put into a queue and taken out of it is a matter of that queue
alone, but a task that stands in several queues is one object in all of them.

* `Depot`, `Depot.Does`: any number of queues, and what can be done with them.
* `Depot.Does.keeps_order`, `Depot.DoesAll.keeps_order`: what comes out of a queue, and what is left
  in it, is what went in, in this order.
* `Depot.Does.queue_eq`: only the queue that a deed is done to changes.
* `Depot.Sound`: objects with one identity are one object, and a new one is like none before.
* `Stint.Carried`: executions each of which finds what the one before it left, whatever queues they
  came from.
* `queues_are_apart_and_tasks_are_shared`: all of it.
-/

namespace Workflow

variable {σ : Domain} {α : Type}

/-! ## Deeds -/

/-- A machine, the task objects that were made so far, and the queues, known by their numbers. -/
structure Depot (σ : Domain) where
  machine : Machine σ
  objects : List (Handle (Task σ))
  queues : List (Queue (Task σ))

/-- What is done to queues and with tasks. -/
inductive Deed (σ : Domain) where
  | opened
  | made (object : Handle (Task σ))
  | pushed (queue : Nat) (object : Handle (Task σ))
  | shared (queue : Nat) (object : Handle (Task σ))
  | dequeued (queue : Nat) (object? : Option (Handle (Task σ)))
  | copied (source : Nat)
  | built (source : Nat)
  /-- A task is executed by itself, wherever it was taken from. -/
  | executed (object : Handle (Task σ)) (context : Context)
  /-- The queue is drained, to its end or up to a failure. -/
  | drained (queue : Nat) (policy : Policy) (context : Context) (taken : List (Handle (Task σ)))

namespace Deed

/-- The queue that the deed is done to. -/
def queue? : Deed σ → Option Nat
  | pushed i _ | shared i _ | dequeued i _ | drained i _ _ _ => some i
  | _ => none

/-- The queue that a new one is made from. -/
def source? : Deed σ → Option Nat
  | copied i | built i => some i
  | _ => none

def addedTo (i : Nat) : Deed σ → List (Handle (Task σ))
  | pushed j object | shared j object => if j = i then [object] else []
  | _ => []

def takenFrom (i : Nat) : Deed σ → List (Handle (Task σ))
  | dequeued j object? => if j = i then object?.toList else []
  | drained j _ _ taken => if j = i then taken else []
  | _ => []

/-- The tasks that the deed executes, in order. -/
def executions : Deed σ → List (Handle (Task σ))
  | executed object _ => [object]
  | drained _ _ _ taken => taken
  | _ => []

end Deed

/-! ## What comes out of a queue -/

/-- What a drain takes out of a queue and what it leaves there. -/
theorem Queue.taken_append_rest {q : Queue (Task σ)} {policy : Policy} {m m' : Machine σ}
    {left : Drained σ} (h : Ends (fun fuel => q.execute fuel policy) m left m') :
    ∃ taken stints m₁, q.handles.take (q.size - left.rest.size) = taken ∧
      taken ++ left.rest.handles = q.handles ∧ InTurn taken m stints m₁ ∧
      m'.state = m₁.state := by
  obtain ⟨fuel, h⟩ := h
  obtain ⟨taken, stints, m₁, hhandles, hturn, -, rfl⟩ := exists_inTurn_of_execute h
  refine ⟨taken, stints, m₁, ?_, hhandles.symm, hturn, rfl⟩
  have hsize : q.size - left.rest.size = taken.length := by
    rw [size, size, hhandles, List.length_append, Nat.add_sub_cancel]
  rw [hsize, hhandles, List.take_left]

theorem Queue.handles_of_dequeue? {q rest : Queue (Task σ)} {object : Handle (Task σ)}
    (h : q.dequeue? = some (object, rest)) : object :: rest.handles = q.handles := by
  unfold dequeue? at h
  split at h
  · cases h
  · rename_i heq
    cases h
    exact heq.symm

/-! ## Depots -/

namespace Depot

/-- Nothing has been made yet. -/
def bare (m : Machine σ) : Depot σ := ⟨m, [], []⟩

/-- The task as a new object. -/
def newObject (d : Depot σ) (task : Task σ) : Handle (Task σ) := ⟨⟨d.objects.length⟩, task⟩

inductive Does : Depot σ → Deed σ → Depot σ → Prop where
  | open {d : Depot σ} : d.Does .opened { d with queues := d.queues ++ [.empty] }
  | make {d : Depot σ} (task : Task σ) :
    d.Does (.made (d.newObject task)) { d with objects := d.objects ++ [d.newObject task] }
  | push {d : Depot σ} {i : Nat} {q : Queue (Task σ)} (hq : d.queues[i]? = some q)
      (task : Task σ) :
    d.Does (.pushed i (d.newObject task))
      { d with
        objects := d.objects ++ [d.newObject task]
        queues := d.queues.set i (q.push (d.newObject task)) }
  | share {d : Depot σ} {i : Nat} {q : Queue (Task σ)} {object : Handle (Task σ)}
      (hq : d.queues[i]? = some q) (hobject : object ∈ d.objects) :
    d.Does (.shared i object) { d with queues := d.queues.set i (q.push object) }
  | dequeue {d : Depot σ} {i : Nat} {q rest : Queue (Task σ)} {object : Handle (Task σ)}
      (hq : d.queues[i]? = some q) (hdequeue : q.dequeue? = some (object, rest)) :
    d.Does (.dequeued i (some object)) { d with queues := d.queues.set i rest }
  | dequeueEmpty {d : Depot σ} {i : Nat} {q : Queue (Task σ)} (hq : d.queues[i]? = some q)
      (hdequeue : q.dequeue? = none) :
    d.Does (.dequeued i none) d
  | copy {d : Depot σ} {i : Nat} {q : Queue (Task σ)} (hq : d.queues[i]? = some q) :
    d.Does (.copied i) { d with queues := d.queues ++ [q] }
  | build {d : Depot σ} {i : Nat} {q copy : Queue (Task σ)} {m : Machine σ}
      (hq : d.queues[i]? = some q)
      (hbuild : (Factory.template q).build d.machine = .finished copy m) :
    d.Does (.built i) { d with machine := m, queues := d.queues ++ [copy] }
  | execute {d : Depot σ} {object : Handle (Task σ)} {context : Context} {result : TaskResult}
      {m : Machine σ} (hobject : object ∈ d.objects)
      (hends : object.task.Ends { d.machine with context } result m) :
    d.Does (.executed object context) { d with machine := m }
  | drain {d : Depot σ} {i : Nat} {q : Queue (Task σ)} {policy : Policy} {context : Context}
      {left : Drained σ} {m : Machine σ} (hq : d.queues[i]? = some q)
      (hends : Ends (fun fuel => q.execute fuel policy) { d.machine with context } left m) :
    d.Does (.drained i policy context (q.handles.take (q.size - left.rest.size)))
      { d with machine := m, queues := d.queues.set i left.rest }

/-- The deeds are done one after the other. -/
inductive DoesAll : Depot σ → List (Deed σ) → Depot σ → Prop where
  | nil {d : Depot σ} : d.DoesAll [] d
  | cons {d d₁ d' : Depot σ} {deed : Deed σ} {deeds : List (Deed σ)} (h : d.Does deed d₁)
      (hrest : d₁.DoesAll deeds d') : d.DoesAll (deed :: deeds) d'

variable {d d' : Depot σ} {deed : Deed σ} {deeds : List (Deed σ)}

/-! ## One queue -/

theorem keeps_order_of_set {queues : List (Queue (Task σ))} {i j : Nat} {old q q' : Queue (Task σ)}
    (hi : queues[i]? = some old) (hj : queues[j]? = some q) (taken added : List (Handle (Task σ)))
    (h : taken ++ q'.handles = old.handles ++ added) :
    ∃ q'', (queues.set i q')[j]? = some q'' ∧
      (if i = j then taken else []) ++ q''.handles =
        q.handles ++ if i = j then added else [] := by
  by_cases hij : i = j
  · subst hij
    obtain rfl : old = q := Option.some.inj (hi.symm.trans hj)
    have hlt : i < queues.length := (List.getElem?_eq_some_iff.1 hi).1
    exact ⟨q', List.getElem?_set_self hlt, by simpa using h⟩
  · exact ⟨q, (List.getElem?_set_ne hij).trans hj, by simp [hij]⟩

theorem getElem?_concat_of_some {queues : List (Queue (Task σ))} {j : Nat} {q : Queue (Task σ)}
    (hj : queues[j]? = some q) (new : Queue (Task σ)) : (queues ++ [new])[j]? = some q :=
  (List.getElem?_append_left (List.getElem?_eq_some_iff.1 hj).1).trans hj

/-- What a deed takes out of a queue comes from its front, and what it adds comes to its end. -/
theorem Does.keeps_order (h : d.Does deed d') {j : Nat} {q : Queue (Task σ)}
    (hj : d.queues[j]? = some q) : ∃ q', d'.queues[j]? = some q' ∧
      deed.takenFrom j ++ q'.handles = q.handles ++ deed.addedTo j := by
  have hsame : [] ++ q.handles = q.handles ++ [] := by simp
  cases h with
  | «open» => exact ⟨q, getElem?_concat_of_some hj _, hsame⟩
  | make task => exact ⟨q, hj, hsame⟩
  | push hq task =>
    simpa [Deed.takenFrom, Deed.addedTo, Queue.push] using
      keeps_order_of_set hq hj [] [d.newObject task] rfl
  | @share _ _ object hq _ =>
    simpa [Deed.takenFrom, Deed.addedTo, Queue.push] using
      keeps_order_of_set hq hj [] [object] rfl
  | @dequeue _ _ _ object hq hdequeue =>
    have hfront := Queue.handles_of_dequeue? hdequeue
    simpa [Deed.takenFrom, Deed.addedTo] using
      keeps_order_of_set hq hj [object] [] (by simp [hfront])
  | dequeueEmpty hq hdequeue => exact ⟨q, hj, by simp [Deed.takenFrom, Deed.addedTo]⟩
  | copy hq => exact ⟨q, getElem?_concat_of_some hj _, hsame⟩
  | build hq hbuild => exact ⟨q, getElem?_concat_of_some hj _, hsame⟩
  | execute hobject hends => exact ⟨q, hj, hsame⟩
  | drain hq hends =>
    obtain ⟨taken, -, -, htaken, hhandles, -⟩ := Queue.taken_append_rest hends
    simpa [Deed.takenFrom, Deed.addedTo, htaken] using
      keeps_order_of_set hq hj taken [] (by simp [hhandles])

/-- From any time on, what is taken out of a queue and what is then left in it is what was in it and
what was added to it since. -/
theorem DoesAll.keeps_order (h : d.DoesAll deeds d') {j : Nat} {q : Queue (Task σ)}
    (hj : d.queues[j]? = some q) : ∃ q', d'.queues[j]? = some q' ∧
      deeds.flatMap (Deed.takenFrom j) ++ q'.handles =
        q.handles ++ deeds.flatMap (Deed.addedTo j) := by
  induction h generalizing q with
  | nil => exact ⟨q, hj, by simp⟩
  | cons h _ ih =>
    obtain ⟨q₁, hq₁, hfirst⟩ := h.keeps_order hj
    obtain ⟨q', hq', hrest⟩ := ih hq₁
    refine ⟨q', hq', ?_⟩
    rw [List.flatMap_cons, List.flatMap_cons, List.append_assoc, hrest, ← List.append_assoc, hfirst,
      List.append_assoc]

/-! ## The other queues -/

theorem Does.queue_eq (h : d.Does deed d') {j : Nat} {q : Queue (Task σ)}
    (hne : deed.queue? ≠ some j) (hj : d.queues[j]? = some q) : d'.queues[j]? = some q := by
  have hset {i : Nat} (hij : some i ≠ some j) (q' : Queue (Task σ)) :
      (d.queues.set i q')[j]? = some q :=
    (List.getElem?_set_ne fun h => hij (congrArg some h)).trans hj
  cases h with
  | «open» | copy | build => exact getElem?_concat_of_some hj _
  | push | share | dequeue | drain => exact hset hne _
  | make | dequeueEmpty | execute => exact hj

/-- A new queue holds what the one that it is made from holds at that time. -/
theorem Does.queues_eq_of_source (h : d.Does deed d') {i : Nat} (hi : deed.source? = some i) :
    ∃ q, d.queues[i]? = some q ∧ d'.queues = d.queues ++ [q] := by
  cases h with
  | copy hq =>
    cases hi
    exact ⟨_, hq, rfl⟩
  | build hq hbuild =>
    cases hi
    cases hbuild
    exact ⟨_, hq, rfl⟩
  | _ => cases hi

/-! ## Emptied queues -/

theorem Does.eq_empty_of_dequeued {i : Nat} (h : d.Does (.dequeued i none) d') :
    d.queues[i]? = some .empty := by
  cases h with
  | @dequeueEmpty _ q hq hdequeue =>
    obtain ⟨_ | ⟨object, rest⟩⟩ := q
    · exact hq
    · cases hdequeue

/-- A drain that keeps going goes through the whole queue. -/
theorem Does.eq_empty_of_drained {i : Nat} {context : Context} {taken : List (Handle (Task σ))}
    (h : d.Does (.drained i .keepGoing context taken) d') : d'.queues[i]? = some .empty := by
  cases h with
  | drain hq hends =>
    obtain ⟨stints, m₁, -, -, rfl, -⟩ := ends_keepGoing_iff.1 hends
    exact List.getElem?_set_self (List.getElem?_eq_some_iff.1 hq).1

/-! ## Objects -/

/-- Nothing but the objects stands in the queues. -/
def Among (objects : List (Handle (Task σ))) (queues : List (Queue (Task σ))) : Prop :=
  ∀ q ∈ queues, ∀ handle ∈ q.handles, handle ∈ objects

section Among

variable {objects objects' : List (Handle (Task σ))} {queues : List (Queue (Task σ))}
  {q : Queue (Task σ)}

theorem Among.mono (h : Among objects queues) (hsub : ∀ object ∈ objects, object ∈ objects') :
    Among objects' queues :=
  fun q hq handle hmem => hsub handle (h q hq handle hmem)

theorem Among.concat (h : Among objects queues) (hq : ∀ handle ∈ q.handles, handle ∈ objects) :
    Among objects (queues ++ [q]) := by
  intro q' hq'
  rcases List.mem_append.1 hq' with hq' | hq'
  · exact h q' hq'
  · rw [List.mem_singleton.1 hq']
    exact hq

theorem Among.set (h : Among objects queues) (hq : ∀ handle ∈ q.handles, handle ∈ objects)
    (i : Nat) : Among objects (queues.set i q) := by
  intro q' hq'
  rcases List.mem_or_eq_of_mem_set hq' with hq' | rfl
  · exact h q' hq'
  · exact hq

theorem Among.push (h : ∀ handle ∈ q.handles, handle ∈ objects) {object : Handle (Task σ)}
    (hobject : object ∈ objects) : ∀ handle ∈ (q.push object).handles, handle ∈ objects := by
  intro handle hmem
  rcases List.mem_append.1 hmem with hmem | hmem
  · exact h handle hmem
  · rw [List.mem_singleton.1 hmem]
    exact hobject

end Among

/-- The objects are known by their identities, and nothing else stands in a queue. -/
structure Sound (d : Depot σ) : Prop where
  id_eq : ∀ k (object : Handle (Task σ)), d.objects[k]? = some object → object.id = ⟨k⟩
  among : Among d.objects d.queues

namespace Sound

theorem bare (m : Machine σ) : (Depot.bare m).Sound := ⟨nofun, nofun⟩

theorem mem_objects (hd : d.Sound) {i : Nat} {q : Queue (Task σ)} (hq : d.queues[i]? = some q) :
    ∀ handle ∈ q.handles, handle ∈ d.objects :=
  hd.among q (List.mem_of_getElem? hq)

theorem id_newObject (hd : d.Sound) (task : Task σ) (k : Nat) (object : Handle (Task σ))
    (h : (d.objects ++ [d.newObject task])[k]? = some object) : object.id = ⟨k⟩ := by
  rcases Nat.lt_or_ge k d.objects.length with hk | hk
  · rw [List.getElem?_append_left hk] at h
    exact hd.id_eq k object h
  · rw [List.getElem?_append_right hk] at h
    obtain ⟨hlt, rfl⟩ := List.getElem?_eq_some_iff.1 h
    have hk' : k = d.objects.length := by
      rw [List.length_singleton] at hlt
      omega
    subst hk'
    simp [newObject]

theorem index_lt (hd : d.Sound) {object : Handle (Task σ)} (h : object ∈ d.objects) :
    object.id.index < d.objects.length := by
  obtain ⟨k, hk⟩ := List.getElem?_of_mem h
  rw [hd.id_eq k object hk]
  exact (List.getElem?_eq_some_iff.1 hk).1

/-- An identity belongs to one object. -/
theorem eq_of_id_eq (hd : d.Sound) {a b : Handle (Task σ)} (ha : a ∈ d.objects)
    (hb : b ∈ d.objects) (h : a.id = b.id) : a = b := by
  obtain ⟨i, hi⟩ := List.getElem?_of_mem ha
  obtain ⟨j, hj⟩ := List.getElem?_of_mem hb
  rw [hd.id_eq i a hi, hd.id_eq j b hj] at h
  cases h
  exact Option.some.inj (hi.symm.trans hj)

end Sound

theorem Does.sound (h : d.Does deed d') (hd : d.Sound) : d'.Sound := by
  cases h with
  | «open» => exact ⟨hd.id_eq, hd.among.concat nofun⟩
  | make task =>
    exact ⟨hd.id_newObject task, hd.among.mono fun _ => List.mem_append_left _⟩
  | push hq task =>
    have hamong := hd.among.mono fun _ => List.mem_append_left [d.newObject task]
    exact ⟨hd.id_newObject task, hamong.set (Among.push (hamong _ (List.mem_of_getElem? hq))
      List.mem_concat_self) _⟩
  | share hq hobject => exact ⟨hd.id_eq, hd.among.set (Among.push (hd.mem_objects hq) hobject) _⟩
  | dequeue hq hdequeue =>
    have hrest := hd.mem_objects hq
    rw [← Queue.handles_of_dequeue? hdequeue] at hrest
    exact ⟨hd.id_eq, hd.among.set (List.forall_mem_cons.1 hrest).2 _⟩
  | dequeueEmpty => exact hd
  | copy hq => exact ⟨hd.id_eq, hd.among.concat (hd.mem_objects hq)⟩
  | build hq hbuild =>
    cases hbuild
    exact ⟨hd.id_eq, hd.among.concat (hd.mem_objects hq)⟩
  | execute => exact ⟨hd.id_eq, hd.among⟩
  | drain hq hends =>
    obtain ⟨taken, -, -, -, hhandles, -⟩ := Queue.taken_append_rest hends
    have hrest := hd.mem_objects hq
    rw [← hhandles] at hrest
    exact ⟨hd.id_eq, hd.among.set (List.forall_mem_append.1 hrest).2 _⟩

theorem DoesAll.sound (h : d.DoesAll deeds d') (hd : d.Sound) : d'.Sound := by
  induction h with
  | nil => exact hd
  | cons h _ ih => exact ih (h.sound hd)

theorem Does.objects_prefix (h : d.Does deed d') : d.objects <+: d'.objects := by
  cases h with
  | make | push => exact List.prefix_append _ _
  | _ => exact List.prefix_rfl

theorem DoesAll.objects_prefix (h : d.DoesAll deeds d') : d.objects <+: d'.objects := by
  induction h with
  | nil => exact List.prefix_rfl
  | cons h _ ih => exact h.objects_prefix.trans ih

/-- What is pushed is a new object. -/
theorem Does.eq_newObject_of_pushed {i : Nat} {object : Handle (Task σ)}
    (h : d.Does (.pushed i object) d') : ∃ task, object = d.newObject task := by
  cases h with
  | push hq task => exact ⟨task, rfl⟩

/-- A new object stands in no queue, and stood in none at any time before. -/
theorem DoesAll.newObject_not_mem (h : d.DoesAll deeds d') (hd : d.Sound) (task : Task σ) :
    ∀ q ∈ d.queues, (d'.newObject task).id ∉ q.ids := by
  intro q hq hmem
  obtain ⟨handle, hhandle, hid⟩ := List.mem_map.1 hmem
  have hlt := hd.index_lt (hd.among q hq handle hhandle)
  have hle := h.objects_prefix.length_le
  rw [hid, newObject] at hlt
  simp only at hlt
  omega

end Depot

/-! ## Executions -/

namespace Stint

/-- Executions one after the other. Each finds what the one before it left, as far as `read`
shows. -/
inductive Carried (read : σ → α) : α → List (Stint σ) → α → Prop where
  | nil {a : α} : Carried read a [] a
  | cons {s : Stint σ} {rest : List (Stint σ)} {b : α}
      (h : Carried read (read s.finish.state) rest b) :
    Carried read (read s.start.state) (s :: rest) b

variable {stints stints' : List (Stint σ)} {a b c : α}

theorem Carried.append {read : σ → α} (h : Carried read a stints b)
    (h' : Carried read b stints' c) : Carried read a (stints ++ stints') c := by
  induction h with
  | nil => exact h'
  | cons _ ih => exact .cons (ih h')

/-- What the executions of others leave alone is carried from each execution of a task to its next
one. -/
theorem Carried.filter {x y : σ} (h : Carried id x stints y) {read : σ → α} {id : TaskId}
    (hspare : ∀ s ∈ stints, s.handle.id ≠ id → read s.finish.state = read s.start.state) :
    Carried read (read x) (stints.filter fun s => s.handle.id = id) (read y) := by
  induction h with
  | nil => exact .nil
  | @cons s rest y _ ih =>
    obtain ⟨hs, hrest⟩ := List.forall_mem_cons.1 hspare
    have ih := ih hrest
    by_cases hid : s.handle.id = id
    · rw [List.filter_cons_of_pos (by simpa using hid)]
      exact .cons ih
    · rw [List.filter_cons_of_neg (by simpa using hid), id_eq, ← hs hid]
      exact ih

/-- Executions that count by one have counted up to their number. -/
theorem Carried.count_eq {count : σ → Nat} {k n : Nat} (h : Carried count k stints n)
    (hcount : ∀ s ∈ stints, count s.finish.state = count s.start.state + 1) :
    n = k + stints.length := by
  induction h with
  | nil => rfl
  | cons _ ih =>
    obtain ⟨hs, hrest⟩ := List.forall_mem_cons.1 hcount
    rw [ih hrest, hs, List.length_cons]
    omega

end Stint

theorem InTurn.carried {handles : List (Handle (Task σ))} {m m' : Machine σ}
    {stints : List (Stint σ)} (h : InTurn handles m stints m') :
    (∀ s ∈ stints, s.IsOf s.handle s.start) ∧ Stint.Carried id m.state stints m'.state := by
  induction h with
  | nil => exact ⟨nofun, .nil⟩
  | cons hs _ ih =>
    obtain ⟨rfl, rfl, hends, hlog⟩ := hs
    exact ⟨List.forall_mem_cons.2 ⟨⟨rfl, rfl, hends, hlog⟩, ih.1⟩, .cons ih.2⟩

theorem Task.Ends.inTurn {handle : Handle (Task σ)} {m m' : Machine σ} {result : TaskResult}
    (h : handle.task.Ends m result m') : ∃ s, InTurn [handle] m [s] m' := by
  obtain ⟨fuel, h⟩ := h
  obtain ⟨events, hadds⟩ := handle.task.execute_unread fuel m
  exact ⟨⟨handle, m, result, m', events⟩, .cons ⟨rfl, rfl, ⟨fuel, h⟩, hadds.log_eq h⟩ .nil⟩

namespace Depot

variable {d d' : Depot σ} {deed : Deed σ} {deeds : List (Deed σ)}

/-- The executions of a deed, on whatever contexts, and the state of the tasks before and after. -/
def Executes (d : Depot σ) (handles : List (Handle (Task σ))) (stints : List (Stint σ))
    (d' : Depot σ) : Prop :=
  stints.map Stint.handle = handles ∧ (∀ s ∈ stints, s.IsOf s.handle s.start) ∧
    Stint.Carried id d.machine.state stints d'.machine.state

theorem Does.executes (h : d.Does deed d') : ∃ stints, d.Executes deed.executions stints d' := by
  have hnone {queues : List (Queue (Task σ))} {objects : List (Handle (Task σ))} :
      d.Executes [] [] ⟨d.machine, objects, queues⟩ := ⟨rfl, nofun, .nil⟩
  cases h with
  | execute _ hends =>
    obtain ⟨s, hturn⟩ := hends.inTurn
    exact ⟨[s], hturn.handles_eq, hturn.carried⟩
  | drain _ hends =>
    obtain ⟨taken, stints, m₁, htaken, -, hturn, hstate⟩ := Queue.taken_append_rest hends
    refine ⟨stints, hturn.handles_eq.trans htaken.symm, hturn.carried.1, ?_⟩
    rw [hstate]
    exact hturn.carried.2
  | build _ hbuild =>
    cases hbuild
    exact ⟨[], hnone⟩
  | _ => exact ⟨[], hnone⟩

theorem DoesAll.executes (h : d.DoesAll deeds d') :
    ∃ stints, d.Executes (deeds.flatMap Deed.executions) stints d' := by
  induction h with
  | nil => exact ⟨[], rfl, nofun, .nil⟩
  | cons h _ ih =>
    obtain ⟨first, hhandles, hreal, hcarried⟩ := h.executes
    obtain ⟨rest, hhandles', hreal', hcarried'⟩ := ih
    refine ⟨first ++ rest, ?_, List.forall_mem_append.2 ⟨hreal, hreal'⟩,
      hcarried.append hcarried'⟩
    rw [List.map_append, hhandles, hhandles', List.flatMap_cons]

end Depot

/-- From any time on, what comes out of a queue and what is then left in it is what was in it and
what was put into it since, in this order, object by object. What is done to one queue leaves all
others as they are, and a copy begins with what its source holds. Only an empty queue gives nothing
out, and a drain that keeps going leaves nothing in it. An identity belongs to one object at all
times, and what is pushed is an object that stood in no queue before. Whatever queues a task is
executed through, each execution finds what the one before it left, so a count that the executions
of no other task touch is one count for all queues. -/
theorem queues_are_apart_and_tasks_are_shared {m : Machine σ} {earlier deeds : List (Deed σ)}
    {d₀ d : Depot σ} (hpast : (Depot.bare m).DoesAll earlier d₀) (h : d₀.DoesAll deeds d) :
    (∀ i q, d₀.queues[i]? = some q → ∃ q', d.queues[i]? = some q' ∧
      deeds.flatMap (Deed.takenFrom i) ++ q'.handles =
        q.handles ++ deeds.flatMap (Deed.addedTo i)) ∧
    (∀ deed d', d.Does deed d' →
      (∀ i q, deed.queue? ≠ some i → d.queues[i]? = some q → d'.queues[i]? = some q) ∧
      ∀ i, deed.source? = some i → ∃ q, d.queues[i]? = some q ∧ d'.queues = d.queues ++ [q]) ∧
    (∀ i d', d.Does (.dequeued i none) d' → d.queues[i]? = some .empty) ∧
    (∀ i context taken d', d.Does (.drained i .keepGoing context taken) d' →
      d'.queues[i]? = some .empty) ∧
    (∀ q ∈ d₀.queues, ∀ handle ∈ q.handles, handle ∈ d.objects) ∧
    (∀ a ∈ d.objects, ∀ b ∈ d.objects, a.id = b.id → a = b) ∧
    (∀ i object d', d.Does (.pushed i object) d' → ∀ q ∈ d₀.queues, object.id ∉ q.ids) ∧
    ∃ stints, d₀.Executes (deeds.flatMap Deed.executions) stints d ∧ ∀ id : TaskId,
      (∀ (α : Type) (read : σ → α),
        (∀ s ∈ stints, s.handle.id ≠ id → read s.finish.state = read s.start.state) →
        Stint.Carried read (read d₀.machine.state) (stints.filter fun s => s.handle.id = id)
          (read d.machine.state)) ∧
      ∀ count : σ → Nat,
        (∀ s ∈ stints, s.handle.id ≠ id → count s.finish.state = count s.start.state) →
        (∀ s ∈ stints, s.handle.id = id → count s.finish.state = count s.start.state + 1) →
        count d.machine.state = count d₀.machine.state +
          (deeds.flatMap Deed.executions).countP fun handle => handle.id = id := by
  have hsound₀ := hpast.sound (.bare m)
  have hsound := h.sound hsound₀
  obtain ⟨stints, hexecutes⟩ := h.executes
  refine ⟨fun i q hq => h.keeps_order hq, fun deed d' hdeed => ⟨fun i q => hdeed.queue_eq,
    fun i => hdeed.queues_eq_of_source⟩, fun i d' hdeed => hdeed.eq_empty_of_dequeued,
    fun i context taken d' hdeed => hdeed.eq_empty_of_drained, ?_,
    fun a ha b hb => hsound.eq_of_id_eq ha hb, ?_,
    stints, hexecutes, fun id => ?_⟩
  · exact fun q hq handle hmem => h.objects_prefix.subset (hsound₀.among q hq handle hmem)
  · intro i object d' hpushed
    obtain ⟨task, rfl⟩ := hpushed.eq_newObject_of_pushed
    exact h.newObject_not_mem hsound₀ task
  · obtain ⟨hhandles, -, hcarried⟩ := hexecutes
    refine ⟨fun α read hspare => hcarried.filter hspare, fun count hspare hcount => ?_⟩
    have hown := (hcarried.filter hspare).count_eq fun s hs =>
      hcount s (List.mem_filter.1 hs).1 (by simpa using (List.mem_filter.1 hs).2)
    rw [hown, ← hhandles, List.countP_map, List.countP_eq_length_filter]
    rfl

/-- A leaf that does nothing. -/
def resting : Task Nat := .leaf "resting" (.done (.ok ()))

theorem state_of_wearing {m m' : Machine Nat} {result : TaskResult}
    (h : wearing.Ends m result m') : m'.state = m.state + 1 := by
  obtain ⟨fuel, h⟩ := h
  cases fuel with
  | zero => cases h
  | succ fuel =>
    cases h
    rfl

/-- A queue and its copy share a leaf that fails at its second execution, which is the first one of
the copy. The copy has another task of its own by then, which comes out of it next. -/
theorem wearing_is_shared :
    let worn : Handle (Task Nat) := ⟨⟨0⟩, wearing⟩
    let other : Handle (Task Nat) := ⟨⟨1⟩, resting⟩
    let deeds : List (Deed Nat) := [.pushed 1 other, .drained 0 .keepGoing .empty [worn],
      .drained 1 .failFast .empty [worn], .dequeued 1 (some other)]
    ∃ d₀ d, (Depot.bare (wearingAt 0 [])).DoesAll [.opened, .pushed 0 worn, .copied 0] d₀ ∧
      d₀.DoesAll deeds d ∧ d₀.queues = [⟨[worn]⟩, ⟨[worn]⟩] ∧
      (∃ q, d.queues[1]? = some q ∧ [worn, other] ++ q.handles = [worn, other]) ∧
      (∀ q ∈ d₀.queues, other.id ∉ q.ids) ∧ d.machine.state = 2 := by
  intro worn other deeds
  let d₀ : Depot Nat := ⟨wearingAt 0 [], [worn], [⟨[worn]⟩, ⟨[worn]⟩]⟩
  have hpast : (Depot.bare (wearingAt 0 [])).DoesAll [.opened, .pushed 0 worn, .copied 0] d₀ :=
    .cons .open (.cons (.push rfl wearing) (.cons (.copy rfl) .nil))
  let events := [Event.taskStarted none ⟨0⟩ "wearing", .leafStarted "wearing"]
  let d₁ : Depot Nat := ⟨wearingAt 0 [], [worn, other], [⟨[worn]⟩, ⟨[worn, other]⟩]⟩
  let d₂ : Depot Nat := ⟨wearingAt 1 events, [worn, other], [⟨[]⟩, ⟨[worn, other]⟩]⟩
  let d₃ : Depot Nat := ⟨wearingAt 2 (events ++ events), [worn, other], [⟨[]⟩, ⟨[other]⟩]⟩
  let d : Depot Nat := ⟨wearingAt 2 (events ++ events), [worn, other], [⟨[]⟩, ⟨[]⟩]⟩
  have hpush : d₀.Does (.pushed 1 other) d₁ := .push (q := ⟨[worn]⟩) rfl resting
  have hsucceeds : Ends (fun fuel => Queue.execute fuel .keepGoing ⟨[worn]⟩) (wearingAt 0 [])
      ⟨.ok ⟨1, []⟩, .empty⟩ (wearingAt 1 events) := ⟨2, rfl⟩
  have hfails : Ends (fun fuel => Queue.execute fuel .failFast ⟨[worn, other]⟩)
      (wearingAt 1 events) ⟨.error (.taskFailed "wearing" (.plain "worn out")), ⟨[other]⟩⟩
      (wearingAt 2 (events ++ events)) := ⟨2, rfl⟩
  have hfirst : d₁.Does (.drained 0 .keepGoing .empty _) _ :=
    .drain (q := ⟨[worn]⟩) rfl hsucceeds
  have hsecond : d₂.Does (.drained 1 .failFast .empty _) _ :=
    .drain (q := ⟨[worn, other]⟩) rfl hfails
  have hdequeue : d₃.Does (.dequeued 1 (some other)) d := .dequeue rfl rfl
  have h : d₀.DoesAll deeds d :=
    .cons hpush (.cons hfirst (.cons hsecond (.cons hdequeue .nil)))
  obtain ⟨-, -, -, -, -, -, hnew, -⟩ := queues_are_apart_and_tasks_are_shared hpast .nil
  obtain ⟨horder, -, -, -, -, -, -, stints, ⟨hhandles, hreal, -⟩, hshared⟩ :=
    queues_are_apart_and_tasks_are_shared hpast h
  have hworn : ∀ s ∈ stints, s.handle = worn := by
    intro s hs
    have hmem : s.handle ∈ deeds.flatMap Deed.executions := hhandles ▸ List.mem_map_of_mem hs
    simpa [deeds, Deed.executions] using hmem
  have hcount := (hshared ⟨0⟩).2 id (fun s hs hne => absurd (congrArg Handle.id (hworn s hs)) hne)
    fun s hs _ => by
      have hends := (hreal s hs).ends
      rw [hworn s hs] at hends
      exact state_of_wearing hends
  exact ⟨d₀, d, hpast, h, rfl, horder 1 ⟨[worn]⟩ rfl, hnew 1 other _ hpush, hcount⟩

end Workflow
