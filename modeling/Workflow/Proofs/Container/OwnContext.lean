import Workflow.Proofs.Succession

/-! # Workflow.Proofs.Container.OwnContext

A run of a container on its own context is an execution of it on a copy of that context, whose final
value is then registered. This holds if the tasks do not reach the registered context by another way
than the context that they are given, which means: they neither run the container on its own context
nor ask about the lock of it.

* `secluded`: the likeness under which such a task is alike to itself, whatever is registered with
  the container on either side.
* `Ends.beside`: a computation does beside something else that is registered what it does anyway.
* `ContainerId.run_ends_iff`: where a run ends.
* `Host.Performs.shadow`, `Host.History.shadow`: calls of which the runs are made on a copy.
* `runs_are_executions_on_a_copy`: a run, an execution on a caller's context, and a succession of
  calls.
-/

namespace Workflow

variable {σ : Domain} {α : Type} {id : ContainerId} {P : Task σ → Prop} {reach : Reach}

/-- At `place` the registered contexts are `a` and `a'`. All else is the same on both sides, and the
tasks of `P` are alike, each to itself. So tasks that correspond do not depend on what is registered
with `id` and leave it alone. -/
def secluded (id : ContainerId) (P : Task σ → Prop) (reach : Reach) (place : ContextId)
    (a a' : SharedContext) : Likeness σ where
  toReach := reach
  Way := Unit
  context _ := Eq
  registered := Eq
  state := Eq
  id := Eq
  task t t' := t = t' ∧ P t
  enters c := c ≠ id
  shares c := c ≠ place
  aside c c' := c = a ∧ c' = a'
  registered_refl := Eq.refl
  enter := @Likeness.enter_same

/-- The tasks of `P`, and all below them, do not reach the context registered with `id` but by the
context that they are given. They come to nothing but `reach`. -/
def Secluded (id : ContainerId) (P : Task σ → Prop) (reach : Reach) : Prop :=
  ∀ place a a', (secluded id P reach place a a').Corresponds

/-- The store offers tasks of `P` only, and the context of the container is none that the other
containers have. -/
structure Store.Secludes (id : ContainerId) (P : Task σ → Prop) (reach : Reach) (s : Store σ) :
    Prop where
  has : s.Has id
  offers : s.Offers P reach
  place_lt : (s.container id).context.index < s.contexts.length
  place_ne : ∀ {c}, reach.uses c → c ≠ id → (s.container c).context ≠ (s.container id).context

namespace Store

theorem Separate.secludes {s : Store σ} (hs : s.Separate) (hid : s.Has id)
    (hoffers : s.Offers P reach) : s.Secludes id P reach := by
  refine ⟨hid, hoffers, hs.has_context hid, fun {c} _ hne heq => ?_⟩
  by_cases hc : s.Has c
  · exact hne (hs.context_injective hc hid heq)
  · have hlt := hs.has_context hid
    rw [← heq, container_of_not_has hc] at hlt
    exact absurd hlt (Nat.lt_irrefl _)

/-- The place where a container's context is registered is given other content. -/
def withRegistered (s : Store σ) (id : ContainerId) (shared : SharedContext) : Store σ :=
  s.modifyContext (s.container id).context fun _ => shared

theorem length_withRegistered (s : Store σ) (id : ContainerId) (shared : SharedContext) :
    (s.withRegistered id shared).contexts.length = s.contexts.length := by
  simp [withRegistered, modifyContext]

theorem container_withRegistered (s : Store σ) (id : ContainerId) (shared : SharedContext)
    (c : ContainerId) : (s.withRegistered id shared).container c = s.container c :=
  container_modifyContext _ _ _ _

theorem contextOf_withRegistered {s : Store σ}
    (h : (s.container id).context.index < s.contexts.length) (shared : SharedContext) :
    (s.withRegistered id shared).contextOf id = shared := by
  rw [contextOf, withRegistered, container_modifyContext]
  exact sharedContext_modifyContext_self h _

theorem modifyContext_congr {s : Store σ} {place : ContextId} {f g : SharedContext → SharedContext}
    (h : f (s.sharedContext place) = g (s.sharedContext place)) :
    s.modifyContext place f = s.modifyContext place g := by
  simp only [modifyContext]
  refine congrArg (Store.mk _ · _ _) (List.ext_getElem? fun i => ?_)
  by_cases hi : place.index = i
  · subst hi
    cases hget : s.contexts[place.index]? with
    | none => simp [hget]
    | some shared =>
      have hshared : s.sharedContext place = shared := by simp [sharedContext, hget]
      rw [hshared] at h
      simp [hget, h]
  · simp [hi]

theorem withRegistered_self (s : Store σ) (id : ContainerId) :
    s.withRegistered id (s.contextOf id) = s := by
  have hsame : s.withRegistered id (s.contextOf id) =
      s.modifyContext (s.container id).context fun shared => shared := modifyContext_congr rfl
  rw [hsame, modifyContext]
  exact congrArg (Store.mk _ · _ _) (List.modify_id _ _)

theorem withRegistered_twice (s : Store σ) (id : ContainerId) (a b : SharedContext) :
    (s.withRegistered id a).withRegistered id b = s.withRegistered id b := by
  rw [withRegistered, container_withRegistered, withRegistered, withRegistered]
  refine congrArg (Store.mk _ · _ _) (List.ext_getElem? fun i => ?_)
  by_cases hi : (s.container id).context.index = i
  · simp [modifyContext, hi, Function.comp_def]
  · simp [modifyContext, hi]

theorem Secludes.registered {s : Store σ} (h : s.Secludes id P reach)
    (shared : SharedContext) : (s.withRegistered id shared).Secludes id P reach := by
  refine ⟨h.has, ⟨fun {c} hc => ?_, h.offers.object, h.offers.names.of_eq rfl rfl⟩, ?_,
    fun hc hne => ?_⟩
  · rw [container_withRegistered]
    exact h.offers.handles hc
  · rw [container_withRegistered, length_withRegistered]
    exact h.place_lt
  · rw [container_withRegistered, container_withRegistered]
    exact h.place_ne hc hne

/-- Whatever is registered with the container on either side. -/
theorem Secludes.like {s : Store σ} (h : s.Secludes id P reach) (a a' : SharedContext) :
    (s.withRegistered id a).Like (secluded id P reach (s.container id).context a a')
      (s.withRegistered id a') := by
  refine ⟨rfl, ?_, rfl, fun {c} hc => ?_, fun {c} _ => ?_, fun {place} hplace => ?_,
    fun {place} hplace => ?_, fun {place} hle => ?_, fun {c} hc henters => ?_, ?_,
    h.offers.names.of_eq rfl rfl⟩
  · rw [length_withRegistered, length_withRegistered]
  · rw [container_withRegistered, container_withRegistered]
    exact Container.like_self (fun _ => rfl) fun handle hmem =>
      ⟨rfl, h.offers.handles hc handle hmem⟩
  · rw [container_withRegistered, container_withRegistered]
  · have hne : (s.container id).context ≠ place := Ne.symm hplace
    rw [withRegistered, withRegistered, sharedContext_modifyContext_ne hne,
      sharedContext_modifyContext_ne hne]
    exact ⟨rfl, rfl⟩
  · obtain rfl : place = (s.container id).context := Classical.not_not.1 hplace
    exact ⟨sharedContext_modifyContext_self h.place_lt _,
      sharedContext_modifyContext_self h.place_lt _⟩
  · rintro rfl
    have hlt := h.place_lt
    rw [length_withRegistered] at hle
    omega
  · rw [container_withRegistered]
    exact h.place_ne hc henters
  · exact h.offers.object_like (L := secluded id P reach _ a a') fun ht => ⟨rfl, ht⟩

section Like

variable {s s' : Store σ} {place : ContextId} {a a' : SharedContext}
  (h : s.Like (secluded id P reach place a a') s')
include h

theorem Like.container_secluded (c : ContainerId) : s.container c = s'.container c := by
  by_cases hc : reach.uses c
  · exact (h.container hc).eq (fun hid => hid) fun ht => ht.1
  · exact h.container_eq hc

/-- Stores that are alike are the same but for what is registered at the place. -/
theorem Like.eq_withRegistered (hplace : (s.container id).context = place)
    (hlt : place.index < s.contexts.length) (hobjects : s.objects = s'.objects) :
    s' = s.withRegistered id a' := by
  have hcontainers : s'.containers = s.containers := by
    refine List.ext_getElem h.containers.symm fun i hi hi' => ?_
    have hcontainer := h.container_secluded ⟨i⟩
    simpa [Store.container, hi, hi'] using hcontainer.symm
  have hcontexts : s'.contexts = (s.withRegistered id a').contexts := by
    refine List.ext_getElem (by rw [length_withRegistered, h.contexts]) fun i hi hi' => ?_
    have hshared : s'.sharedContext ⟨i⟩ = (s.withRegistered id a').sharedContext ⟨i⟩ := by
      rw [withRegistered, hplace]
      by_cases heq : (⟨i⟩ : ContextId) = place
      · obtain ⟨-, haside⟩ := h.aside (fun hne => hne heq)
        rw [haside, heq, sharedContext_modifyContext_self hlt]
      · rw [sharedContext_modifyContext_ne (Ne.symm heq)]
        exact ((h.shared heq).eq fun hregistered => hregistered).symm
    simpa [sharedContext, hi, hi'] using hshared
  calc s' = ⟨s'.containers, s'.contexts, s'.registries, s'.objects⟩ := rfl
    _ = s.withRegistered id a' := by
      rw [hcontainers, hcontexts, ← h.registries, ← hobjects]
      rfl

/-- Where stores are alike, each secludes the container. -/
theorem Like.secludes (hid : s.Has id) (hplace : (s.container id).context = place) :
    s.Secludes id P reach := by
  subst hplace
  refine ⟨hid, ⟨fun {c} hc handle hmem => ?_, fun {i t} hi ht => ?_, h.names⟩, ?_,
    fun hc hne => ?_⟩
  · obtain ⟨t', -, ht⟩ := (h.container hc).task_of_mem hmem
    exact ht
  · obtain ⟨t', -, ht⟩ := task_of_optionRel (h.object hi) ht
    exact ht
  · by_contra hle
    exact h.shares_new (Nat.le_of_not_lt hle) rfl
  · exact h.shares_entered hc hne

end Like

/-- The containers stay, but for their queues, and the objects stay as they are. -/
def Stays (s s' : Store σ) : Prop := s.Grows s' ∧ s'.objects = s.objects

theorem stays_progress : Progress (Stays (σ := σ)) where
  refl s := ⟨.refl s, rfl⟩
  trans h₁ h₂ := ⟨h₁.1.trans h₂.1, h₂.2.trans h₁.2⟩
  register s registry r _ := ⟨.register s registry r, rfl⟩
  queues s id f := ⟨.modifyContainer s id f, rfl⟩

end Store

theorem Activity.exec_stays (a : Activity σ) (fuel : Nat) : (a.exec fuel).Moves Store.Stays :=
  a.exec_moves Store.stays_progress (fun s id f => ⟨.modifyContext s id f, rfl⟩) fuel

/-! ## Machines side by side -/

/-- The machine with something else registered with the container. -/
def Machine.withRegistered (m : Machine σ) (id : ContainerId) (shared : SharedContext) :
    Machine σ := { m with store := m.store.withRegistered id shared }

/-- The machine with a copy of the content of the registered context at hand. -/
def Machine.withCopy (m : Machine σ) (id : ContainerId) : Machine σ :=
  { m with context := (m.store.contextOf id).content }

section Beside

variable {m m₁ : Machine σ}

/-- A computation that corresponds to itself does not touch what is registered with the container,
and does beside it what it does with anything else registered. -/
theorem Ends.beside {x : Nat → Exec σ α} {v : α} (hm : m.store.Secludes id P reach)
    (hx : ∀ a a' fuel, Exec.Follows
      (L := secluded id P reach (m.store.container id).context a a') () Eq (x fuel) x)
    (hstays : ∀ fuel, (x fuel).Moves Store.Stays) (h : Ends x m v m₁) :
    m₁.store.Secludes id P reach ∧ m₁.store.contextOf id = m.store.contextOf id ∧
      ∀ shared, Ends x (m.withRegistered id shared) v (m₁.withRegistered id shared) := by
  obtain ⟨hgrows, hobjects⟩ : m.store.Stays m₁.store := by
    obtain ⟨fuel, h⟩ := h
    exact hstays fuel m v m₁ h
  have hplace : (m₁.store.container id).context = (m.store.container id).context := by
    rw [hgrows.container hm.has]
  have hbeside (shared : SharedContext) : ∃ m₁', Ends x (m.withRegistered id shared) v m₁' ∧
      m₁.Like (secluded id P reach (m.store.container id).context
        (m.store.contextOf id) shared) () m₁' := by
    have hstore := hm.like (m.store.contextOf id) shared
    rw [Store.withRegistered_self] at hstore
    have hlike : m.Like (secluded id P reach (m.store.container id).context
        (m.store.contextOf id) shared) () (m.withRegistered id shared) :=
      ⟨⟨rfl, rfl⟩, hstore, Log.Like.refl _⟩
    obtain ⟨_, m₁', hends, rfl, hm₁⟩ := h.follows (hx (m.store.contextOf id) shared) hlike
    exact ⟨m₁', hends, hm₁⟩
  -- Beside itself it comes out alike to itself, so the store that it leaves secludes the container.
  obtain ⟨_, -, hself⟩ := hbeside (m.store.contextOf id)
  have hsecludes : m₁.store.Secludes id P reach :=
    hself.store.secludes (hgrows.has hm.has) hplace
  refine ⟨hsecludes, ?_, fun shared => ?_⟩
  · rw [Store.contextOf, hplace]
    exact (hself.store.aside fun hne => hne rfl).1
  · obtain ⟨m₁', hends, hm₁⟩ := hbeside shared
    obtain ⟨-, hobjects'⟩ : (m.withRegistered id shared).store.Stays m₁'.store := by
      obtain ⟨fuel, hends⟩ := hends
      exact hstays fuel _ v m₁' hends
    have hlt : (m.store.container id).context.index < m₁.store.contexts.length :=
      hplace ▸ hsecludes.place_lt
    have hstore : m₁'.store = m₁.store.withRegistered id shared :=
      hm₁.store.eq_withRegistered hplace hlt (hobjects.trans hobjects'.symm)
    have hmachine : m₁' = m₁.withRegistered id shared := by
      obtain ⟨⟨context, state⟩, store, log⟩ := m₁'
      cases hstore
      cases hm₁.scope.context
      cases hm₁.scope.state
      cases hm₁.log.eq fun hid => hid
      rfl
    rw [← hmachine]
    exact hends

theorem ContainerId.execute_beside (hP : Secluded id P reach) {c : ContainerId}
    (hc : reach.uses c) {r : RunResult} (h : Ends (fun fuel => c.execute fuel) m r m₁)
    (hm : m.store.Secludes id P reach) :
    m₁.store.Secludes id P reach ∧ m₁.store.contextOf id = m.store.contextOf id ∧
      ∀ shared, Ends (fun fuel => c.execute fuel) (m.withRegistered id shared) r
        (m₁.withRegistered id shared) :=
  h.beside hm (fun a a' => ContainerId.execute_follows (hP _ a a') hc ())
    (Activity.execute c).exec_stays

theorem ContainerId.run_beside (hP : Secluded id P reach) {c : ContainerId} (hc : reach.uses c)
    (hne : c ≠ id) {r : RunResult} (h : Ends (fun fuel => c.run fuel) m r m₁)
    (hm : m.store.Secludes id P reach) :
    m₁.store.Secludes id P reach ∧ m₁.store.contextOf id = m.store.contextOf id ∧
      ∀ shared, Ends (fun fuel => c.run fuel) (m.withRegistered id shared) r
        (m₁.withRegistered id shared) :=
  h.beside hm (fun a a' => ContainerId.run_follows (hP _ a a') hc hne ())
    (Activity.run c).exec_stays

theorem ContainerId.addQueue_beside {c : ContainerId} (hc : reach.uses c) {queue : Queue (Task σ)}
    (hqueue : ∀ handle ∈ queue.handles, P handle.task)
    (h : Ends (fun _ => Exec.addQueue c queue) m () m₁) (hm : m.store.Secludes id P reach) :
    m₁.store.Secludes id P reach ∧ m₁.store.contextOf id = m.store.contextOf id ∧
      ∀ shared, Ends (fun _ => Exec.addQueue c queue) (m.withRegistered id shared) ()
        (m₁.withRegistered id shared) := by
  refine h.beside hm (fun a a' _ => ?_) fun _ => Store.stays_progress.compatible.addQueue c queue
  exact .addQueue hc (Queue.like_self (fun _ => rfl) fun handle hmem => ⟨rfl, hqueue handle hmem⟩)

/-- A run that is in progress has the lock. -/
theorem Machine.held_eq (m : Machine σ) (id : ContainerId) : m.held id =
    (m.withCopy id).withRegistered id ⟨(m.store.contextOf id).content, true⟩ := by
  simp only [Machine.held, Machine.withCopy, Machine.withRegistered, Store.withRegistered]
  refine congrArg (Machine.mk _ · _) (Store.modifyContext_congr ?_)
  rfl

theorem Machine.released_withRegistered (m : Machine σ) (id : ContainerId) (shared : SharedContext)
    (own : Context) : (m.withRegistered id shared).released id own = m.released id own := by
  simp only [Machine.released, Machine.withRegistered]
  exact congrArg (Machine.mk _ · _) (Store.withRegistered_twice _ _ _ _)

theorem Machine.contextOf_released {m : Machine σ}
    (h : (m.store.container id).context.index < m.store.contexts.length) (own : Context) :
    (m.released id own).store.contextOf id = ⟨m.context, false⟩ :=
  Store.contextOf_withRegistered h _

theorem Machine.withRegistered_self (m : Machine σ) (id : ContainerId) :
    m.withRegistered id (m.store.contextOf id) = m := by
  rw [withRegistered, Store.withRegistered_self]

theorem Machine.withRegistered_twice (m : Machine σ) (id : ContainerId) (a b : SharedContext) :
    (m.withRegistered id a).withRegistered id b = m.withRegistered id b := by
  simp only [withRegistered, Store.withRegistered_twice]

theorem Machine.withCopy_registered (m : Machine σ) (id : ContainerId) :
    (m.withCopy id).withRegistered id (m.store.contextOf id) = m.withCopy id :=
  Machine.withRegistered_self _ _

/-- A run ends where an execution on the content of the registered context does, and gives back what
that has made of the content. -/
theorem ContainerId.run_ends_iff (hP : Secluded id P reach) (hid : reach.uses id)
    (hm : m.store.Secludes id P reach) (hfree : (m.store.contextOf id).locked = false)
    {r : RunResult} {m₂ : Machine σ} : Ends (fun fuel => id.run fuel) m r m₂ ↔
      ∃ m₁, Ends (fun fuel => id.execute fuel) (m.withCopy id) r m₁ ∧
        m₂ = m₁.released id m.context := by
  constructor
  · rintro ⟨fuel, hrun⟩
    obtain ⟨r', m₁, hexecute, hend⟩ :=
      Exec.finished_of_bind ((runContainer_of_free hfree fuel).symm.trans hrun)
    cases hend
    have hheld : (m.held id).store.Secludes id P reach := by
      rw [Machine.held_eq]
      exact hm.registered _
    have hends : Ends (fun fuel => id.execute fuel) (m.held id) r m₁ := ⟨fuel, hexecute⟩
    obtain ⟨-, -, hbeside⟩ := ContainerId.execute_beside hP hid hends hheld
    -- What the run has held under the lock does not matter: it is written over at the end.
    refine ⟨m₁.withRegistered id (m.store.contextOf id), ?_, ?_⟩
    · have hends := hbeside (m.store.contextOf id)
      rwa [Machine.held_eq, Machine.withRegistered_twice, Machine.withCopy_registered] at hends
    · rw [Machine.released_withRegistered]
  · rintro ⟨m₁, hends, rfl⟩
    obtain ⟨-, -, hbeside⟩ := ContainerId.execute_beside hP hid hends hm
    obtain ⟨fuel, hexecute⟩ := hbeside ⟨(m.store.contextOf id).content, true⟩
    rw [← Machine.held_eq] at hexecute
    refine ⟨fuel, (runContainer_of_free hfree fuel).trans ?_⟩
    refine (Exec.bind_of_finished hexecute).trans ?_
    rw [Machine.released_withRegistered]

end Beside

/-! ## Successions of calls -/

/-- The call with an execution on the caller's context `copy` in the place of a run of `id`. -/
def Operation.onCopy (id : ContainerId) (copy : String) :
    ContainerId × Operation σ → ContainerId × Operation σ
  | (c, .run) => if c = id then (c, .execute copy) else (c, .run)
  | call => call

theorem Operation.onCopy_fst (id : ContainerId) (copy : String) (call : ContainerId × Operation σ) :
    (Operation.onCopy id copy call).1 = call.1 := by
  obtain ⟨c, op⟩ := call
  cases op with
  | run =>
    rw [onCopy]
    split <;> rfl
  | _ => rfl

/-- The calls that are made: queues of tasks of `P` are added, and containers are run, and executed
on callers' contexts other than `copy`. -/
inductive Operation.Spares (id : ContainerId) (copy : String) (P : Task σ → Prop) (reach : Reach) :
    ContainerId × Operation σ → Prop where
  | addQueue {c : ContainerId} {queue : Queue (Task σ)} :
      reach.uses c → (∀ handle ∈ queue.handles, P handle.task) →
      Spares id copy P reach (c, .addQueue queue)
  | run {c : ContainerId} : reach.uses c → Spares id copy P reach (c, .run)
  | execute {c : ContainerId} {own : String} :
      reach.uses c → ¬ (c = id ∧ own = copy) → Spares id copy P reach (c, .execute own)

namespace Host

/-- The host that has in the caller's context `copy` what `h` has registered with the container,
while `shared` is registered with it. -/
def shadow (h : Host σ) (id : ContainerId) (copy : String) (shared : SharedContext) : Host σ :=
  ⟨h.machine.withRegistered id shared, h.keep id copy (h.machine.store.contextOf id).content⟩

variable {h h₁ : Host σ} {copy : String}

theorem shadow_machine {m : Machine σ} {shared : SharedContext}
    (hcontext : m.store.contextOf id = h.machine.store.contextOf id) :
    ({ h with machine := m } : Host σ).shadow id copy shared =
      { h.shadow id copy shared with machine := m.withRegistered id shared } := by
  simp only [shadow, hcontext]
  rfl

theorem shadow_contexts_self (h : Host σ) (id : ContainerId) (copy : String)
    (shared : SharedContext) :
    (h.shadow id copy shared).contexts id copy = (h.machine.store.contextOf id).content :=
  if_pos ⟨rfl, rfl⟩

theorem shadow_contexts_ne (h : Host σ) {c : ContainerId} {own : String}
    (hne : ¬ (c = id ∧ own = copy)) (shared : SharedContext) :
    (h.shadow id copy shared).contexts c own = h.contexts c own :=
  if_neg hne

theorem shadow_keep_self (h : Host σ) (id : ContainerId) (copy : String) (shared : SharedContext)
    (context : Context) :
    (h.shadow id copy shared).keep id copy context = h.keep id copy context := by
  funext d name
  simp only [keep, shadow]
  by_cases hd : d = id ∧ name = copy
  · rw [if_pos hd, if_pos hd]
  · simp only [if_neg hd]

theorem shadow_keep_ne (h : Host σ) {c : ContainerId} {own : String}
    (hne : ¬ (c = id ∧ own = copy)) (shared : SharedContext) (context : Context) (m : Machine σ) :
    (h.shadow id copy shared).keep c own context =
      (⟨m, h.keep c own context⟩ : Host σ).keep id copy (h.machine.store.contextOf id).content := by
  funext d name
  simp only [keep, shadow]
  by_cases hd : d = c ∧ name = own
  · obtain ⟨rfl, rfl⟩ := hd
    simp only [and_self, if_true, if_neg hne]
  · simp only [if_neg hd]

/-- The machine is left as a release leaves it, with the copy in the place of what is registered. -/
theorem shadow_released {m : Machine σ}
    (hlt : (m.store.container id).context.index < m.store.contexts.length)
    (shared : SharedContext) :
    ({ h with machine := m.released id h.machine.context } : Host σ).shadow id copy shared =
      ⟨{ m.withRegistered id shared with context := h.machine.context },
        (h.shadow id copy shared).keep id copy m.context⟩ := by
  have hstore : (m.released id h.machine.context).store.withRegistered id shared =
      m.store.withRegistered id shared := Store.withRegistered_twice _ _ _ _
  rw [shadow_keep_self, shadow, Machine.contextOf_released hlt, Machine.withRegistered, hstore]
  rfl

theorem shadow_executed {c : ContainerId} {own : String} (hne : ¬ (c = id ∧ own = copy))
    {m : Machine σ} (hcontext : m.store.contextOf id = h.machine.store.contextOf id)
    (shared : SharedContext) :
    (⟨{ m with context := h.machine.context }, h.keep c own m.context⟩ : Host σ).shadow id copy
        shared =
      ⟨{ m.withRegistered id shared with context := h.machine.context },
        (h.shadow id copy shared).keep c own m.context⟩ := by
  rw [shadow_keep_ne h hne shared m.context { m with context := h.machine.context }, ← hcontext]
  rfl

theorem Performs.execute_of_eq {c : ContainerId} {own : String} {context : Context}
    (hcontext : h.contexts c own = context) {r : RunResult} {m : Machine σ}
    (hends : Ends (fun fuel => c.execute fuel) { h.machine with context := context } r m) :
    Performs c h (.execute own) (.ended r)
      ⟨{ m with context := h.machine.context }, h.keep c own m.context⟩ := by
  subst hcontext
  exact .execute hends

/-- A call that does not run the container leaves what is registered with it alone. A run does to
it what the execution does to the copy. -/
theorem Performs.shadow (hP : Secluded id P reach) (hid : reach.uses id)
    (hs : h.machine.store.Secludes id P reach)
    (hfree : (h.machine.store.contextOf id).locked = false) {call : ContainerId × Operation σ}
    (hcall : Operation.Spares id copy P reach call) {response : Response}
    (hp : Performs call.1 h call.2 response h₁) (shared : SharedContext) :
    h₁.machine.store.Secludes id P reach ∧
      (h₁.machine.store.contextOf id).locked = false ∧
      Performs (Operation.onCopy id copy call).1 (h.shadow id copy shared)
        (Operation.onCopy id copy call).2 response (h₁.shadow id copy shared) := by
  cases hcall with
  | @addQueue c queue hc hqueue =>
    cases hp with
    | @addQueue _ m hadd =>
      have hends : Ends (fun _ => Exec.addQueue c queue) h.machine () m := ⟨0, hadd⟩
      obtain ⟨hsecludes, hcontext, hbeside⟩ := ContainerId.addQueue_beside hc hqueue hends hs
      obtain ⟨_, hadd'⟩ := hbeside shared
      refine ⟨hsecludes, by rw [hcontext, hfree], ?_⟩
      rw [shadow_machine hcontext]
      exact .addQueue hadd'
  | @run c hc =>
    cases hp with
    | @run r m hrun =>
      by_cases heq : c = id
      · subst heq
        obtain ⟨m₁, hexecute, rfl⟩ := (ContainerId.run_ends_iff hP hid hs hfree).1 hrun
        obtain ⟨hsecludes, -, hbeside⟩ := ContainerId.execute_beside hP hid hexecute hs
        have hfree₁ : ((m₁.released c h.machine.context).store.contextOf c).locked = false := by
          rw [Machine.contextOf_released hsecludes.place_lt]
        refine ⟨hsecludes.registered _, hfree₁, ?_⟩
        rw [shadow_released hsecludes.place_lt, Operation.onCopy, if_pos rfl]
        exact .execute_of_eq (shadow_contexts_self h c copy shared) (hbeside shared)
      · obtain ⟨hsecludes, hcontext, hbeside⟩ := ContainerId.run_beside hP hc heq hrun hs
        refine ⟨hsecludes, by rw [hcontext, hfree], ?_⟩
        rw [shadow_machine hcontext, Operation.onCopy, if_neg heq]
        exact .run (hbeside shared)
  | @execute c own hc hne =>
    cases hp with
    | @execute _ _ m hexecute =>
      obtain ⟨hsecludes, hcontext, hbeside⟩ := ContainerId.execute_beside hP hc hexecute hs
      have hcontext : m.store.contextOf id = h.machine.store.contextOf id := hcontext
      refine ⟨hsecludes, by rw [hcontext, hfree], ?_⟩
      rw [shadow_executed hne hcontext]
      exact .execute_of_eq (shadow_contexts_ne h hne shared) (hbeside shared)

/-- What is registered with the container is the fold of the runs of it: the context in which the
executions on the copy add up. -/
theorem History.shadow (hP : Secluded id P reach) (hid : reach.uses id)
    (hs : h.machine.store.Secludes id P reach)
    (hfree : (h.machine.store.contextOf id).locked = false)
    {calls : List (ContainerId × Operation σ)} {responses : List (ContainerId × Response)}
    (hcalls : ∀ call ∈ calls, Operation.Spares id copy P reach call)
    (hp : History h calls responses h₁) (shared : SharedContext) :
    (h₁.machine.store.contextOf id).locked = false ∧
      History (h.shadow id copy shared) (calls.map (Operation.onCopy id copy)) responses
        (h₁.shadow id copy shared) := by
  induction hp with
  | nil => exact ⟨hfree, .nil⟩
  | @cons h h₁ h₂ c op response ops responses hstep _ ih =>
    obtain ⟨hs₁, hfree₁, hstep'⟩ :=
      hstep.shadow hP hid hs hfree (hcalls _ List.mem_cons_self) shared
    obtain ⟨hfree₂, hrest⟩ :=
      ih hs₁ hfree₁ fun call hmem => hcalls call (List.mem_cons_of_mem _ hmem)
    refine ⟨hfree₂, ?_⟩
    rw [Operation.onCopy_fst] at hstep'
    have hcall : Operation.onCopy id copy (c, op) = (c, (Operation.onCopy id copy (c, op)).2) :=
      Prod.ext (Operation.onCopy_fst id copy (c, op)) rfl
    rw [List.map_cons, hcall]
    exact .cons hstep' hrest

end Host

/-- A container that is not being run, and whose tasks do not reach its registered context by
another way than the context that they are given. A run of it comes to its end, with the same result
and all else the same, just where an execution does that begins at the same machine with a copy of
what is registered; and then the final value of the copy is registered, whatever the result.
Executions on callers' contexts leave what is registered alone. So it is at all times what the copy
is, if instead of each run in a succession of calls there is an execution on the copy. -/
theorem runs_are_executions_on_a_copy (hP : Secluded id P reach) (hid : reach.uses id)
    {h : Host σ} (hseparate : h.machine.store.Separate) (hhas : h.machine.store.Has id)
    (hfree : (h.machine.store.contextOf id).locked = false)
    (hoffers : h.machine.store.Offers P reach) :
    let m := h.machine
    (∀ r m₂, Ends (fun fuel => id.run fuel) m r m₂ ↔
      ∃ m₁, Ends (fun fuel => id.execute fuel) (m.withCopy id) r m₁ ∧
        m₂ = m₁.released id m.context ∧ m₂.store.contextOf id = ⟨m₁.context, false⟩) ∧
    (∀ c, reach.uses c → ∀ context r m₁,
      Ends (fun fuel => c.execute fuel) { m with context } r m₁ →
      m₁.store.contextOf id = m.store.contextOf id) ∧
    ∀ copy calls responses h₁, (∀ call ∈ calls, Operation.Spares id copy P reach call) →
      h.History calls responses h₁ →
      ∃ h₁', Host.History { h with contexts := h.keep id copy (m.store.contextOf id).content }
          (calls.map (Operation.onCopy id copy)) responses h₁' ∧
        h₁.machine.store.contextOf id = ⟨h₁'.contexts id copy, false⟩ ∧
        h₁' = h₁.shadow id copy (m.store.contextOf id) := by
  intro m
  have hm : m.store.Secludes id P reach := hseparate.secludes hhas hoffers
  refine ⟨fun r m₂ => ?_, fun c hc context r m₁ hends => ?_,
    fun copy calls responses h₁ hcalls hhistory => ?_⟩
  · rw [ContainerId.run_ends_iff hP hid hm hfree]
    refine exists_congr fun m₁ => and_congr_right fun hends => ?_
    obtain ⟨hm₁, -, -⟩ := ContainerId.execute_beside hP hid hends hm
    constructor
    · rintro rfl
      exact ⟨rfl, Machine.contextOf_released hm₁.place_lt _⟩
    · rintro ⟨hm₂, -⟩
      exact hm₂
  · obtain ⟨-, hsame, -⟩ := ContainerId.execute_beside hP hc hends hm
    exact hsame
  · obtain ⟨hfree₁, hshadow⟩ :=
      hhistory.shadow hP hid hm hfree hcalls (m.store.contextOf id)
    have hstart : h.shadow id copy (m.store.contextOf id) =
        { h with contexts := h.keep id copy (m.store.contextOf id).content } := by
      rw [Host.shadow, Machine.withRegistered_self]
    rw [hstart] at hshadow
    refine ⟨_, hshadow, ?_, rfl⟩
    rw [Host.shadow_contexts_self, ← hfree₁]

/-! The second of two containers. One of its tasks has the first one run, which it finds by name. -/

def calling : Task Unit := .leaf "calling" <| .find "yards" "one" fun
  | some one => .call (.run one) fun _ => .done (.ok ())
  | none => .done (.ok ())

def Visiting (t : Task Unit) : Prop := t = marking ∨ t = calling

/-- The second container is not found under the name of the first. -/
def yardsReach : Reach where
  uses _ := True
  knows _ := False
  finds registry name id := registry = "yards" → name = "one" → id ≠ ⟨1⟩

theorem visits_secluded : Secluded ⟨1⟩ Visiting yardsReach := by
  refine fun place a a' => ⟨?_, ?_⟩
  · rintro t _ ⟨rfl, -⟩
    rfl
  · rintro t _ ⟨rfl, rfl | rfl⟩
    · refine .leaf fun way => .read fun s s' hs => ?_
      have hcontext : s.context = s'.context := hs.context
      rw [hcontext]
      split
      · exact .done _
      · exact .write ⟨rfl, hs.state⟩ (.done _)
    · refine .leaf fun way => .find "yards" "one" fun found hfinds => ?_
      cases found with
      | none => exact .done _
      | some one => exact .call ⟨trivial, hfinds one rfl rfl rfl⟩ fun _ => .done _

def callers : Queue (Task Unit) := ⟨marks ++ [⟨⟨3⟩, calling⟩]⟩

/-- The first run fails at its second task and leaves two, which the caller executes. The second run
finds what the first one has written. -/
def visits : List (ContainerId × Operation Unit) :=
  [(⟨1⟩, .addQueue callers), (⟨1⟩, .run), (⟨1⟩, .execute "mine"),
    (⟨1⟩, .addQueue ⟨[⟨⟨0⟩, marking⟩]⟩), (⟨1⟩, .run)]

def visitResponses : List (ContainerId × Response) :=
  [(⟨1⟩, .added), (⟨1⟩, .ended (.error seen)), (⟨1⟩, .ended (.ok ⟨2, []⟩)), (⟨1⟩, .added),
    (⟨1⟩, .ended (.error seen))]

def leafEvents (id : Nat) (name : String) : List Event :=
  [.taskStarted (some ⟨1⟩) ⟨id⟩ name, .leafStarted name]

def visitEvents : List Event :=
  foundingEvents ++ [.queueAdded ⟨1⟩ "two" callers.ids, .runStarted ⟨1⟩ "two"] ++
    leafEvents 0 "marking" ++ leafEvents 1 "marking" ++ [.runStarted ⟨1⟩ "two"] ++
    leafEvents 2 "marking" ++ leafEvents 3 "calling" ++
    [.runStarted ⟨0⟩ "one", .runFinished ⟨0⟩ "one" ⟨0, []⟩, .runFinished ⟨1⟩ "two" ⟨2, []⟩,
      .queueAdded ⟨1⟩ "two" [⟨0⟩], .runStarted ⟨1⟩ "two"] ++ leafEvents 0 "marking"

/-- When so many of the events have come to pass. -/
def visited (queues : List (Queue (Task Unit))) (shared : SharedContext) (events : Nat) :
    Machine Unit :=
  yards [] queues ⟨.empty, false⟩ shared (visitEvents.take events)

def visitor : Host Unit := ⟨founded, fun _ _ => .empty⟩

def visitedHost : Host Unit :=
  ⟨visited [] (marked (.bool true)) 20, visitor.keep ⟨1⟩ "mine" (marked (.bool true)).content⟩

/-- The tasks that the first run leaves. -/
def leftOver : Queue (Task Unit) := ⟨callers.handles.drop 2⟩

theorem history_visits : visitor.History visits visitResponses visitedHost := by
  have hfirst : ContainerId.run 6 ⟨1⟩ (visited [callers] ⟨.empty, false⟩ 3) =
      .finished (.error seen) (visited [leftOver] (marked (.bool true)) 8) := by
    rfl
  have hmine : ContainerId.execute 6 ⟨1⟩ (visited [leftOver] (marked (.bool true)) 8) =
      .finished (.ok ⟨2, []⟩)
        { visited [] (marked (.bool true)) 16 with context := (marked (.bool true)).content } := by
    rfl
  have hsecond : ContainerId.run 6 ⟨1⟩ (visited [⟨[⟨⟨0⟩, marking⟩]⟩] (marked (.bool true)) 17) =
      .finished (.error seen) (visited [] (marked (.bool true)) 20) := by
    rfl
  exact .cons (.addQueue rfl) (.cons (.run ⟨6, hfirst⟩) (.cons (.execute ⟨6, hmine⟩)
    (.cons (.addQueue rfl) (.cons (.run ⟨6, hsecond⟩) .nil))))

theorem founded_consistent : founded.store.Consistent := by
  have hends : Ends (fun fuel => (Activity.program (fun r => r) founding).exec fuel)
      ⟨⟨.empty, ()⟩, Store.empty, #[]⟩ () founded := ⟨1, exec_founding⟩
  have hleads : Leads ⟨⟨.empty, ()⟩, Store.empty, #[]⟩ founded :=
    .requests .refl (Activity.visits_done hends)
  exact hleads.keeps .empty

theorem founded_offers : founded.store.Offers Visiting yardsReach := by
  refine ⟨fun {c} _ handle hmem => ?_, nofun, fun {registry name c} hfind => ?_,
    fun {_ _ c} hc => ?_⟩
  · have hempty : (founded.store.container c).handles = [] := by
      obtain ⟨_ | _ | i⟩ := c <;> rfl
    rw [hempty] at hmem
    cases hmem
  · rintro rfl rfl
    have hone : founded.store.find? "yards" "one" = some ⟨0⟩ := by decide
    rw [hone] at hfind
    cases hfind
    decide
  · rintro - - rfl
    exact hc (by decide)

theorem visits_spare : ∀ call ∈ visits, Operation.Spares ⟨1⟩ "copy" Visiting yardsReach call := by
  have hmarking {i : TaskId} : ∀ handle ∈ [Handle.mk i marking], Visiting handle.task := by
    intro handle hmem
    rw [List.mem_singleton.1 hmem]
    exact .inl rfl
  have hcallers : ∀ handle ∈ callers.handles, Visiting handle.task := by
    simp [callers, marks, Visiting]
  intro call hmem
  simp only [visits, List.mem_cons, List.not_mem_nil, or_false] at hmem
  rcases hmem with rfl | rfl | rfl | rfl | rfl
  · exact .addQueue trivial hcallers
  · exact .run trivial
  · exact .execute trivial (by simp)
  · exact .addQueue trivial hmarking
  · exact .run trivial

theorem visits_are_executions_on_a_copy :
    let m := founded
    let copied : List (ContainerId × Operation Unit) :=
      [(⟨1⟩, .addQueue callers), (⟨1⟩, .execute "copy"), (⟨1⟩, .execute "mine"),
        (⟨1⟩, .addQueue ⟨[⟨⟨0⟩, marking⟩]⟩), (⟨1⟩, .execute "copy")]
    Secluded ⟨1⟩ Visiting yardsReach ∧ yardsReach.uses ⟨1⟩ ∧ m.store.Separate ∧ m.store.Has ⟨1⟩ ∧
      (m.store.contextOf ⟨1⟩).locked = false ∧ m.store.Offers Visiting yardsReach ∧
      (∀ call ∈ visits, Operation.Spares ⟨1⟩ "copy" Visiting yardsReach call) ∧
      visitor.History visits visitResponses visitedHost ∧
      ∃ h₁', Host.History
          { visitor with contexts := visitor.keep ⟨1⟩ "copy" (m.store.contextOf ⟨1⟩).content }
          copied visitResponses h₁' ∧
        h₁'.contexts ⟨1⟩ "copy" = Context.empty.insert "seen" true := by
  intro m copied
  have hhas : m.store.Has ⟨1⟩ := by decide
  have hseparate : m.store.Separate := founded_consistent.separate
  obtain ⟨-, -, hcopies⟩ := runs_are_executions_on_a_copy (h := visitor) visits_secluded trivial
    hseparate hhas rfl founded_offers
  obtain ⟨h₁', hhistory, hregistered, -⟩ :=
    hcopies "copy" visits visitResponses visitedHost visits_spare history_visits
  refine ⟨visits_secluded, trivial, hseparate, hhas, rfl, founded_offers, visits_spare,
    history_visits, h₁', hhistory, ?_⟩
  exact (congrArg SharedContext.content hregistered).symm

end Workflow
