import Mathlib.Data.List.Forall2
import Workflow.Proofs.Container.Lock

/-! # Workflow.Proofs.Likeness

Two machines that are alike in all that a relation between their data demands. The relation says
which contexts, states, tasks and identities of tasks are alike; stores, logs and machines are alike
where the data in them are.

* `Reach`: what tasks may come to, on either side.
* `Likeness`: the relation.
* `Store.Like`, `Machine.Like`: stores and machines, with a lemma for each way in which the engine
  changes a store.
* `Log.Like.remarks_eq`: an observer is shown the same.
* `Likeness.flip`: the same seen from the other side.
-/

namespace Workflow

variable {σ : Domain}

/-- What tasks may come to: the containers that they make use of, the objects that they refer to,
and the containers that they find under a name in a registry. -/
structure Reach where
  uses : ContainerId → Prop
  knows : TaskId → Prop
  finds : String → String → ContainerId → Prop

/-- Tasks that come to nothing but to what is handed to them, and do not mind what they find. -/
def Reach.nowhere : Reach := ⟨fun _ => False, fun _ => False, fun _ _ _ => True⟩

/-- What is alike on two sides. The containers that the tasks do not make use of are the same. -/
structure Likeness (σ : Domain) extends Reach where
  /-- Two contexts at hand can be alike in several ways. They stay alike in the way in which they
  once are, for as long as they are at hand. -/
  Way : Type
  context : Way → Context → Context → Prop
  registered : Context → Context → Prop
  state : σ → σ → Prop
  id : TaskId → TaskId → Prop
  task : Task σ → Task σ → Prop
  /-- The containers that the tasks run on their own contexts, or ask about the locks of these. -/
  enters : ContainerId → Prop
  /-- The places of the contexts that are alike as registered contexts. -/
  shares : ContextId → Prop
  /-- What holds between the two sides of the other contexts, which nothing is done with. -/
  aside : SharedContext → SharedContext → Prop
  registered_refl : ∀ c, registered c c
  /-- Contexts that are alike as registered contexts are so at hand, and can be given back. -/
  enter : ∀ {c c'}, registered c c' →
    ∃ way, context way c c' ∧ ∀ {d d'}, context way d d' → registered d d'

namespace Likeness

def flip (L : Likeness σ) : Likeness σ where
  toReach := L.toReach
  Way := L.Way
  context way c c' := L.context way c' c
  registered c c' := L.registered c' c
  state s s' := L.state s' s
  id i i' := L.id i' i
  task t t' := L.task t' t
  enters := L.enters
  shares := L.shares
  aside c c' := L.aside c' c
  registered_refl := L.registered_refl
  enter h := by
    obtain ⟨way, hcontext, hback⟩ := L.enter h
    exact ⟨way, hcontext, hback⟩

/-- Where contexts are alike if they are the same, there is but one way. -/
theorem enter_same {c c' : Context} (h : c = c') :
    ∃ _ : Unit, c = c' ∧ ∀ {d d' : Context}, d = d' → d = d' := ⟨(), h, fun hsame => hsame⟩

end Likeness

variable (L : Likeness σ)

/-! ## Data -/

structure Scope.Like (way : L.Way) (s s' : Scope σ) : Prop where
  context : L.context way s.context s'.context
  state : L.state s.state s'.state

structure Handle.Like (h h' : Handle (Task σ)) : Prop where
  id : L.id h.id h'.id
  task : L.task h.task h'.task

def Queue.Like (queue queue' : Queue (Task σ)) : Prop :=
  List.Forall₂ (Handle.Like L) queue.handles queue'.handles

structure Container.Like (c c' : Container σ) : Prop where
  name : c.name = c'.name
  policy : c.policy = c'.policy
  queues : List.Forall₂ (Queue.Like L) c.queues c'.queues
  context : c.context = c'.context

structure SharedContext.Like (c c' : SharedContext) : Prop where
  content : L.registered c.content c'.content
  locked : c.locked = c'.locked

/-- Nothing else is found under the names, now or when containers are yet to come. -/
structure Store.Names (finds : String → String → ContainerId → Prop) (s : Store σ) : Prop where
  found : ∀ {registry name id}, s.find? registry name = some id → finds registry name id
  found_new : ∀ {registry name id}, ¬ s.Has id → finds registry name id

structure Store.Like (s s' : Store σ) : Prop where
  containers : s.containers.length = s'.containers.length
  contexts : s.contexts.length = s'.contexts.length
  registries : s.registries = s'.registries
  container : ∀ {id}, L.uses id → (s.container id).Like L (s'.container id)
  container_eq : ∀ {id}, ¬ L.uses id → s.container id = s'.container id
  shared : ∀ {id}, L.shares id → (s.sharedContext id).Like L (s'.sharedContext id)
  aside : ∀ {id}, ¬ L.shares id → L.aside (s.sharedContext id) (s'.sharedContext id)
  /-- A context that is yet to come will be alike. -/
  shares_new : ∀ {id : ContextId}, s.contexts.length ≤ id.index → L.shares id
  shares_entered : ∀ {id}, L.uses id → L.enters id → L.shares (s.container id).context
  object : ∀ {id}, L.knows id → Option.Rel L.task (s.object? id) (s'.object? id)
  names : s.Names L.finds

inductive Event.Like : Event → Event → Prop where
  | refl (event : Event) : Like event event
  | taskStarted {origin : Option ContainerId} {id id' : TaskId} {name : String} :
      L.id id id' → Like (.taskStarted origin id name) (.taskStarted origin id' name)
  | queueAdded {container : ContainerId} {name : String} {ids ids' : List TaskId} :
      List.Forall₂ L.id ids ids' →
      Like (.queueAdded container name ids) (.queueAdded container name ids')

def Log.Like (log log' : Log) : Prop := List.Forall₂ (Event.Like L) log.toList log'.toList

structure Machine.Like (way : L.Way) (m m' : Machine σ) : Prop where
  scope : m.toScope.Like L way m'.toScope
  store : m.store.Like L m'.store
  log : m.log.Like L m'.log

variable {L}

/-! ## Names -/

namespace Store.Names

variable {finds : String → String → ContainerId → Prop} {s s' : Store σ}

theorem of_eq (h : s.Names finds) (hregistries : s'.registries = s.registries)
    (hlength : s'.containers.length = s.containers.length) : s'.Names finds := by
  refine ⟨fun hfind => h.found ?_, fun hid => h.found_new ?_⟩
  · rwa [Store.find?, Store.registry, ← hregistries]
  · rwa [Store.Has, ← hlength]

theorem register (h : s.Names finds) (registry : String) (r : Registration) :
    (s.register registry r).2.Names finds := by
  refine ⟨fun {registry' name id} hfind => ?_, fun hid => h.found_new fun hhas =>
    hid (hhas.register registry r)⟩
  rw [find?_register] at hfind
  split at hfind
  · cases hfind
    exact h.found_new (Nat.lt_irrefl _)
  · exact h.found hfind

end Store.Names

/-! ## The same seen from the other side -/

section Flip

theorem Scope.Like.flip {way : L.Way} {s s' : Scope σ} (h : s.Like L way s') :
    s'.Like L.flip way s := ⟨h.context, h.state⟩

theorem Handle.Like.flip {h h' : Handle (Task σ)} (hh : h.Like L h') : h'.Like L.flip h :=
  ⟨hh.id, hh.task⟩

theorem Queue.Like.flip {queue queue' : Queue (Task σ)} (h : queue.Like L queue') :
    queue'.Like L.flip queue :=
  (List.Forall₂.imp (fun _ _ => Handle.Like.flip) h).flip

theorem Container.Like.flip {c c' : Container σ} (h : c.Like L c') : c'.Like L.flip c :=
  ⟨h.name.symm, h.policy.symm, (List.Forall₂.imp (fun _ _ => Queue.Like.flip) h.queues).flip,
    h.context.symm⟩

theorem optionRel_flip {α β : Type} {R : α → β → Prop} {S : β → α → Prop}
    (hflip : ∀ {a b}, R a b → S b a) {a : Option α} {b : Option β} (h : Option.Rel R a b) :
    Option.Rel S b a := by
  cases h with
  | some hab => exact .some (hflip hab)
  | none => exact .none

theorem optionRel_imp {α β : Type} {R S : α → β → Prop} (h : ∀ {a b}, R a b → S a b) {a : Option α}
    {b : Option β} (hab : Option.Rel R a b) : Option.Rel S a b := by
  cases hab with
  | some hab => exact .some (h hab)
  | none => exact .none

theorem Store.Like.flip {s s' : Store σ} (h : s.Like L s') : s'.Like L.flip s where
  containers := h.containers.symm
  contexts := h.contexts.symm
  registries := h.registries.symm
  container hid := (h.container hid).flip
  container_eq hid := (h.container_eq hid).symm
  shared hid := ⟨(h.shared hid).content, (h.shared hid).locked.symm⟩
  aside := h.aside
  shares_new hid := h.shares_new (by rwa [h.contexts])
  shares_entered hid henters := by
    rw [← (h.container hid).context]
    exact h.shares_entered hid henters
  object hid := optionRel_flip (fun ht => ht) (h.object hid)
  names := h.names.of_eq h.registries.symm h.containers.symm

theorem Event.Like.flip {e e' : Event} (h : e.Like L e') : e'.Like L.flip e := by
  cases h with
  | refl => exact .refl e
  | taskStarted hid => exact .taskStarted hid
  | queueAdded hids => exact .queueAdded hids.flip

theorem Machine.Like.flip {way : L.Way} {m m' : Machine σ} (h : m.Like L way m') :
    m'.Like L.flip way m :=
  ⟨h.scope.flip, h.store.flip, (List.Forall₂.imp (fun _ _ => Event.Like.flip) h.log).flip⟩

end Flip

/-! ## Logs -/

theorem eq_of_forall₂ {α : Type} {R : α → α → Prop} (hR : ∀ {a b}, R a b → a = b) {l l' : List α}
    (h : List.Forall₂ R l l') : l = l' := by
  rw [← List.forall₂_eq_eq_eq]
  exact List.Forall₂.imp (fun _ _ => hR) h

theorem map_eq_of_forall₂ {α β γ : Type} {R : α → β → Prop} {f : α → γ} {g : β → γ}
    (hR : ∀ {a b}, R a b → f a = g b) {l : List α} {l' : List β} (h : List.Forall₂ R l l') :
    l.map f = l'.map g := by
  induction h with
  | nil => rfl
  | cons hab _ ih => rw [List.map_cons, List.map_cons, hR hab, ih]

theorem Event.Like.remark?_eq {e e' : Event} (h : e.Like L e') : e.remark? = e'.remark? := by
  cases h with
  | refl => rfl
  | taskStarted => rfl
  | queueAdded hids => simp [Event.remark?, Event.record?, hids.length_eq]

theorem Log.Like.refl (log : Log) : log.Like L log := List.forall₂_same.2 fun e _ => .refl e

theorem Log.Like.push {log log' : Log} (h : log.Like L log') {e e' : Event} (he : e.Like L e') :
    Log.Like L (log.push e) (log'.push e') := by
  have hlast : List.Forall₂ (Event.Like L) [e] [e'] := .cons he .nil
  simpa [Log.Like] using List.rel_append h hlast

/-- What an observer is shown of logs that are alike is the same. -/
theorem Log.Like.remarks_eq {log log' : Log} (h : log.Like L log') :
    log.remarks = log'.remarks := by
  have hlist {l l' : List Event} (hl : List.Forall₂ (Event.Like L) l l') :
      l.filterMap Event.remark? = l'.filterMap Event.remark? := by
    induction hl with
    | nil => rfl
    | cons he _ ih => simp only [List.filterMap_cons, he.remark?_eq, ih]
  exact hlist h

/-- Where the identities on both sides are the same, so are the events. -/
theorem Log.Like.eq {log log' : Log} (h : log.Like L log') (hid : ∀ {i i'}, L.id i i' → i = i') :
    log = log' := by
  have hevent {e e' : Event} (he : e.Like L e') : e = e' := by
    cases he with
    | refl => rfl
    | taskStarted h => rw [hid h]
    | queueAdded h => rw [eq_of_forall₂ hid h]
  exact Array.ext' (eq_of_forall₂ hevent h)

/-! ## Queues -/

theorem exists_of_mem_forall₂ {α β : Type} {R : α → β → Prop} {l : List α} {l' : List β}
    (h : List.Forall₂ R l l') {a : α} (ha : a ∈ l) : ∃ b, R a b := by
  induction h with
  | nil => cases ha
  | cons hab _ ih =>
    rcases List.mem_cons.1 ha with rfl | ha
    · exact ⟨_, hab⟩
    · exact ih ha

theorem Container.Like.task_of_mem {c c' : Container σ} (h : c.Like L c') {handle : Handle (Task σ)}
    (hmem : handle ∈ c.handles) : ∃ t', L.task handle.task t' := by
  obtain ⟨queue, hqueue, hmem⟩ := List.mem_flatMap.1 hmem
  obtain ⟨queue', hlike⟩ := exists_of_mem_forall₂ h.queues hqueue
  obtain ⟨handle', hhandle⟩ := exists_of_mem_forall₂ hlike hmem
  exact ⟨handle'.task, hhandle.task⟩

theorem Queue.Like.isEmpty {queue queue' : Queue (Task σ)} (h : queue.Like L queue') :
    queue.isEmpty = queue'.isEmpty := by
  obtain ⟨handles⟩ := queue
  obtain ⟨handles'⟩ := queue'
  cases h <;> rfl

theorem Queue.Like.ids {queue queue' : Queue (Task σ)} (h : queue.Like L queue') :
    List.Forall₂ L.id queue.ids queue'.ids := by
  simp only [Queue.ids, List.forall₂_map_left_iff, List.forall₂_map_right_iff]
  exact List.Forall₂.imp (fun _ _ => Handle.Like.id) h

theorem Queue.like_self {queue : Queue (Task σ)} (hid : ∀ i, L.id i i)
    (h : ∀ handle ∈ queue.handles, L.task handle.task handle.task) : queue.Like L queue :=
  List.forall₂_same.2 fun handle hmem => ⟨hid handle.id, h handle hmem⟩

theorem Container.like_self {c : Container σ} (hid : ∀ i, L.id i i)
    (h : ∀ handle ∈ c.handles, L.task handle.task handle.task) : c.Like L c := by
  refine ⟨rfl, rfl, List.forall₂_same.2 fun queue hqueue => ?_, rfl⟩
  refine Queue.like_self hid fun handle hmem => h handle ?_
  exact List.mem_flatMap.2 ⟨queue, hqueue, hmem⟩

/-- Where only the same tasks are alike, under the same identities, so are only the same queues. -/
theorem Queue.Like.eq {queue queue' : Queue (Task σ)} (h : queue.Like L queue')
    (hid : ∀ {i i'}, L.id i i' → i = i') (htask : ∀ {t t'}, L.task t t' → t = t') :
    queue = queue' := by
  have hhandle {a b : Handle (Task σ)} (hab : a.Like L b) : a = b := by
    obtain ⟨i, t⟩ := a
    obtain ⟨i', t'⟩ := b
    have hi : i = i' := hid hab.id
    have ht : t = t' := htask hab.task
    rw [hi, ht]
  have hhandles : queue.handles = queue'.handles := eq_of_forall₂ hhandle h
  obtain ⟨handles⟩ := queue
  cases hhandles
  rfl

theorem Container.Like.eq {c c' : Container σ} (h : c.Like L c')
    (hid : ∀ {i i'}, L.id i i' → i = i') (htask : ∀ {t t'}, L.task t t' → t = t') : c = c' := by
  have hqueues : c.queues = c'.queues := eq_of_forall₂ (fun hq => hq.eq hid htask) h.queues
  obtain ⟨name, policy, queues, context⟩ := c
  cases h.name
  cases h.policy
  cases hqueues
  cases h.context
  rfl

theorem SharedContext.Like.eq {c c' : SharedContext} (h : c.Like L c')
    (hregistered : ∀ {c c'}, L.registered c c' → c = c') : c = c' := by
  have hcontent : c.content = c'.content := hregistered h.content
  obtain ⟨content, locked⟩ := c
  cases hcontent
  cases h.locked
  rfl

theorem task_of_optionRel {R : Task σ → Task σ → Prop} {a b : Option (Task σ)}
    (h : Option.Rel R a b) {t : Task σ} (ht : a = some t) : ∃ t', R t t' := by
  cases h with
  | some hr =>
    cases ht
    exact ⟨_, hr⟩
  | none => cases ht

/-! ## Stores -/

/-- The tasks of the store that a workflow may come to are in `P`. -/
structure Store.Offers (P : Task σ → Prop) (reach : Reach) (s : Store σ) : Prop where
  handles : ∀ {id}, reach.uses id → ∀ handle ∈ (s.container id).handles, P handle.task
  object : ∀ {id t}, reach.knows id → s.object? id = some t → P t
  names : s.Names reach.finds

theorem Store.Offers.object_like {P : Task σ → Prop} {reach : Reach} {s : Store σ}
    (h : s.Offers P reach) (hP : ∀ {t}, P t → L.task t t) {id : TaskId} (hid : reach.knows id) :
    Option.Rel L.task (s.object? id) (s.object? id) := by
  cases hobject : s.object? id with
  | none => exact .none
  | some t => exact .some (hP (h.object hid hobject))

namespace Store

theorem container_of_not_has {s : Store σ} {id : ContainerId} (h : ¬ s.Has id) :
    s.container id = ⟨"", .failFast, [], ⟨s.contexts.length⟩⟩ := by
  have hle : s.containers.length ≤ id.index := Nat.le_of_not_lt h
  simp [container, hle]

theorem sharedContext_of_le {s : Store σ} {id : ContextId} (h : s.contexts.length ≤ id.index) :
    s.sharedContext id = default := by
  simp [sharedContext, h]

section Register

variable {s : Store σ} {registry : String} {r : Registration}

theorem container_register_of_not_has {id : ContainerId} (h : ¬ s.Has id) :
    (s.register registry r).2.container id =
      if id = (s.register registry r).1 then ⟨r.name, r.policy, [], ⟨s.contexts.length⟩⟩
      else ⟨"", .failFast, [], ⟨s.contexts.length + 1⟩⟩ := by
  by_cases hid : id = (s.register registry r).1
  · rw [if_pos hid, hid, container_register_new]
  · have hout : ¬ (s.register registry r).2.Has id := by
      rw [has_register_iff]
      exact not_or.2 ⟨h, hid⟩
    rw [if_neg hid, container_of_not_has hout]
    simp [Store.register]

theorem sharedContext_register_of_lt {id : ContextId} (h : id.index < s.contexts.length) :
    (s.register registry r).2.sharedContext id = s.sharedContext id := by
  simp [sharedContext, Store.register, List.getElem?_append_left h]

theorem sharedContext_register_of_not_lt {id : ContextId} (h : ¬ id.index < s.contexts.length) :
    (s.register registry r).2.sharedContext id =
      [⟨r.context.getD Context.empty, false⟩].getD (id.index - s.contexts.length) default := by
  simp [sharedContext, Store.register, List.getElem?_append_right (Nat.le_of_not_lt h)]

end Register

namespace Like

variable {s s' : Store σ} {id : ContainerId}

theorem has_iff (h : s.Like L s') : s.Has id ↔ s'.Has id := by
  rw [Store.Has, Store.Has, h.containers]

theorem registry (h : s.Like L s') (name : String) : s.registry name = s'.registry name := by
  rw [Store.registry, Store.registry, h.registries]

theorem find? (h : s.Like L s') (registry name : String) :
    s.find? registry name = s'.find? registry name ∧
      ∀ id ∈ s.find? registry name, L.finds registry name id := by
  refine ⟨?_, fun id hfind => h.names.found hfind⟩
  rw [Store.find?, Store.find?, h.registry]

theorem contextOf (h : s.Like L s') (hid : L.uses id) (henters : L.enters id) :
    (s.contextOf id).Like L (s'.contextOf id) := by
  rw [Store.contextOf, Store.contextOf, ← (h.container hid).context]
  exact h.shared (h.shares_entered hid henters)

/-- What is asked about a container is answered in the same way. -/
theorem answer (h : s.Like L s') (hid : L.uses id) {query : Query}
    (hquery : query = .locked → L.enters id) :
    query.answer (s.view id) = query.answer (s'.view id) := by
  cases query with
  | name => exact (h.container hid).name
  | policy => exact (h.container hid).policy
  | queueCount => exact (h.container hid).queues.length_eq
  | locked => exact (h.contextOf hid (hquery rfl)).locked

/-- Each side changes the queues of the container. -/
theorem modifyQueues (h : s.Like L s') (hid : L.uses id)
    (f f' : List (Queue (Task σ)) → List (Queue (Task σ)))
    (hf : List.Forall₂ (Queue.Like L) (s.container id).queues (s'.container id).queues →
      List.Forall₂ (Queue.Like L) (f (s.container id).queues) (f' (s'.container id).queues)) :
    (s.modifyContainer id fun c => { c with queues := f c.queues }).Like L
      (s'.modifyContainer id fun c => { c with queues := f' c.queues }) := by
  have hne {c : ContainerId} (hc : ¬ L.uses c) : id ≠ c := by
    rintro rfl
    exact hc hid
  refine ⟨?_, h.contexts, h.registries, fun {c} hc => ?_, fun hc => ?_, h.shared, h.aside,
    h.shares_new, fun {c} hc henters => ?_, h.object, h.names.of_eq rfl ?_⟩
  · simpa [Store.modifyContainer] using h.containers
  · by_cases heq : id = c
    · subst heq
      have hcontainer := h.container hid
      by_cases hhas : s.Has id
      · rw [container_modifyContainer_self hhas, container_modifyContainer_self (h.has_iff.1 hhas)]
        exact ⟨hcontainer.name, hcontainer.policy, hf hcontainer.queues, hcontainer.context⟩
      · rw [container_of_not_has (by simpa using hhas),
          container_of_not_has (by simpa [← h.has_iff] using hhas)]
        exact ⟨rfl, rfl, .nil, congrArg ContextId.mk h.contexts⟩
    · rw [container_modifyContainer_ne heq, container_modifyContainer_ne heq]
      exact h.container hc
  · rw [container_modifyContainer_ne (hne hc), container_modifyContainer_ne (hne hc)]
    exact h.container_eq hc
  · by_cases hhas : s.Has c
    · rw [(Grows.modifyContainer s id f).container hhas]
      exact h.shares_entered hc henters
    · rw [container_of_not_has (by simpa using hhas)]
      exact h.shares_new (Nat.le_refl _)
  · simp [Store.modifyContainer]

theorem modifyContext (h : s.Like L s') {id : ContextId} (hid : L.shares id)
    {f f' : SharedContext → SharedContext}
    (hf : ∀ {c c' : SharedContext}, c.Like L c' → (f c).Like L (f' c')) :
    (s.modifyContext id f).Like L (s'.modifyContext id f') := by
  have hne {c : ContextId} (hc : ¬ L.shares c) : id ≠ c := by
    rintro rfl
    exact hc hid
  have hlength : (s.modifyContext id f).contexts.length = s.contexts.length := by
    simp [Store.modifyContext]
  refine ⟨h.containers, ?_, h.registries, fun {c} hc => ?_, fun {c} hc => ?_, fun {c} hc => ?_,
    fun {c} hc => ?_, fun hc => h.shares_new (by rwa [hlength] at hc), fun {c} hc henters => ?_,
    h.object, h.names.of_eq rfl rfl⟩
  · simpa [Store.modifyContext] using h.contexts
  · rw [container_modifyContext, container_modifyContext]
    exact h.container hc
  · rw [container_modifyContext, container_modifyContext]
    exact h.container_eq hc
  · by_cases heq : id = c
    · subst heq
      by_cases hlt : id.index < s.contexts.length
      · rw [sharedContext_modifyContext_self hlt,
          sharedContext_modifyContext_self (h.contexts ▸ hlt)]
        exact hf (h.shared hid)
      · have hle : s.contexts.length ≤ id.index := Nat.le_of_not_lt hlt
        rw [sharedContext_of_le (by simpa [Store.modifyContext] using hle),
          sharedContext_of_le (by simpa [Store.modifyContext, ← h.contexts] using hle)]
        exact ⟨L.registered_refl _, rfl⟩
    · rw [sharedContext_modifyContext_ne heq, sharedContext_modifyContext_ne heq]
      exact h.shared hc
  · rw [sharedContext_modifyContext_ne (hne hc), sharedContext_modifyContext_ne (hne hc)]
    exact h.aside hc
  · rw [container_modifyContext]
    exact h.shares_entered hc henters

theorem addQueue (h : s.Like L s') (hid : L.uses id) {queue queue' : Queue (Task σ)}
    (hqueue : queue.Like L queue') : (s.addQueue id queue).Like L (s'.addQueue id queue') :=
  h.modifyQueues hid (· ++ [queue]) (· ++ [queue']) fun hqueues =>
    List.rel_append hqueues (.cons hqueue .nil)

theorem returnQueue (h : s.Like L s') (hid : L.uses id) {queue queue' : Queue (Task σ)}
    (hqueue : queue.Like L queue') :
    (s.returnQueue id queue).Like L (s'.returnQueue id queue') := by
  unfold Store.returnQueue
  rw [← hqueue.isEmpty]
  cases queue.isEmpty with
  | true => exact h
  | false => exact h.modifyQueues hid (queue :: ·) (queue' :: ·) (.cons hqueue)

theorem register (h : s.Like L s') (registry : String) (r : Registration) :
    (s.register registry r).1 = (s'.register registry r).1 ∧
      (s.register registry r).2.Like L (s'.register registry r).2 := by
  have hnew : (s.register registry r).1 = (s'.register registry r).1 :=
    congrArg ContainerId.mk h.containers
  have hcontainer {id : ContainerId} (hid : ¬ s.Has id) :
      (s.register registry r).2.container id = (s'.register registry r).2.container id := by
    rw [container_register_of_not_has hid, container_register_of_not_has (h.has_iff.not.1 hid),
      hnew, h.contexts]
  have hlength : (s.register registry r).2.contexts.length = s.contexts.length + 1 := by
    simp [Store.register]
  refine ⟨hnew, ?_, ?_, ?_, fun {id} hid => ?_, fun {id} hid => ?_, fun {id} hid => ?_,
    fun {id} hid => ?_, fun hid => h.shares_new (by omega), fun {id} hid henters => ?_, h.object,
    h.names.register registry r⟩
  · simpa [Store.register] using h.containers
  · simpa [Store.register] using h.contexts
  · simp only [Store.register, h.registries, h.registry, h.containers, h.contexts]
  · by_cases hhas : s.Has id
    · rw [container_register hhas, container_register (h.has_iff.1 hhas)]
      exact h.container hid
    · rw [← hcontainer hhas, container_register_of_not_has hhas]
      split
      · exact ⟨rfl, rfl, .nil, rfl⟩
      · exact ⟨rfl, rfl, .nil, rfl⟩
  · by_cases hhas : s.Has id
    · rw [container_register hhas, container_register (h.has_iff.1 hhas)]
      exact h.container_eq hid
    · exact hcontainer hhas
  · by_cases hlt : id.index < s.contexts.length
    · rw [sharedContext_register_of_lt hlt, sharedContext_register_of_lt (h.contexts ▸ hlt)]
      exact h.shared hid
    · rw [sharedContext_register_of_not_lt hlt,
        sharedContext_register_of_not_lt (h.contexts ▸ hlt), h.contexts]
      exact ⟨L.registered_refl _, rfl⟩
  · have hlt : id.index < s.contexts.length := by
      by_contra hle
      exact hid (h.shares_new (Nat.le_of_not_lt hle))
    rw [sharedContext_register_of_lt hlt, sharedContext_register_of_lt (h.contexts ▸ hlt)]
    exact h.aside hid
  · by_cases hhas : s.Has id
    · rw [container_register hhas]
      exact h.shares_entered hid henters
    · rw [container_register_of_not_has hhas]
      refine h.shares_new ?_
      split
      · exact Nat.le_refl _
      · exact Nat.le_succ _

end Like
end Store
end Workflow
