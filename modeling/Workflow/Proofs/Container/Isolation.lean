import Workflow.Proofs.Confined
import Workflow.Proofs.Container.Lock

/-! # Workflow.Proofs.Container.Isolation

Operations on different containers do not interfere. A host makes one operation after the other,
each on one of its containers. What becomes of a container is decided by the operations on that
container alone, if the tasks of different containers have nothing in common.

* `Store.Rewrites`: all that an operation does to the store.
* `Host.Performs.carries`: an operation, made on two hosts that are alike where the container is
  concerned.
* `Host.Performs.mirror`, `Host.Performs.frame`: so the operation comes out the same on both, and
  the rest of each host stays as it is.
* `Host.History.project`, `Host.exists_history`: whole histories.
* `operations_are_isolated`: any interleaving.
-/

namespace Workflow

variable {σ : Domain} {π : Type}

/-! ## Operations -/

/-- A machine, and the contexts of the callers' own on which containers are executed. -/
structure Host (σ : Domain) where
  machine : Machine σ
  contexts : ContainerId → String → Context

/-- What can be done with a container from outside. -/
inductive Operation (σ : Domain) where
  | addQueue (queue : Queue (Task σ))
  | run
  /-- The container is executed on the caller's context of that name. -/
  | execute (own : String)
  /-- A value is written to the registered context. -/
  | insert (key : String) (value : Value)

/-- The tasks that the operation brings in. -/
def Operation.handles : Operation σ → List (Handle (Task σ))
  | addQueue queue => queue.handles
  | _ => []

inductive Response where
  | added
  | ended (result : RunResult)
  | inserted (before : Option Value)

namespace Host

def keep (h : Host σ) (c : ContainerId) (own : String) (context : Context) :
    ContainerId → String → Context :=
  fun d name => if d = c ∧ name = own then context else h.contexts d name

/-- The operation, made on the container `c`, comes to an end. -/
inductive Performs (c : ContainerId) : Host σ → Operation σ → Response → Host σ → Prop where
  | addQueue {h : Host σ} {queue : Queue (Task σ)} {m : Machine σ} :
      Exec.addQueue c queue h.machine = .finished () m →
      Performs c h (.addQueue queue) .added { h with machine := m }
  | run {h : Host σ} {r : RunResult} {m : Machine σ} :
      Ends (fun fuel => c.run fuel) h.machine r m →
      Performs c h .run (.ended r) { h with machine := m }
  | execute {h : Host σ} {own : String} {r : RunResult} {m : Machine σ} :
      Ends (fun fuel => c.execute fuel) { h.machine with context := h.contexts c own } r m →
      Performs c h (.execute own) (.ended r)
        ⟨{ m with context := h.machine.context }, h.keep c own m.context⟩
  | insert {h : Host σ} {key : String} {value : Value} :
      (h.machine.store.contextOf c).locked = false →
      Performs c h (.insert key value)
        (.inserted ((h.machine.store.contextOf c).content.get? key))
        { h with
          machine := { h.machine with
            store := h.machine.store.modifyContext (h.machine.store.container c).context
              fun shared => { shared with content := shared.content.insert key value } } }

/-- The operations are made one after the other, each on its container, with those responses. -/
inductive History : Host σ → List (ContainerId × Operation σ) → List (ContainerId × Response) →
    Host σ → Prop where
  | nil {h : Host σ} : History h [] [] h
  | cons {h h₁ h₂ : Host σ} {c : ContainerId} {op : Operation σ} {response : Response}
      {ops : List (ContainerId × Operation σ)} {responses : List (ContainerId × Response)} :
      Performs c h op response h₁ → History h₁ ops responses h₂ →
      History h ((c, op) :: ops) ((c, response) :: responses) h₂

theorem Performs.deterministic {c : ContainerId} {h h₁ h₂ : Host σ} {op : Operation σ}
    {response₁ response₂ : Response} (p₁ : Performs c h op response₁ h₁)
    (p₂ : Performs c h op response₂ h₂) : response₁ = response₂ ∧ h₁ = h₂ := by
  cases p₁ with
  | addQueue h₁ =>
    cases p₂ with
    | addQueue h₂ =>
      cases h₁.symm.trans h₂
      exact ⟨rfl, rfl⟩
  | run h₁ =>
    cases p₂ with
    | run h₂ =>
      obtain ⟨rfl, rfl⟩ := Ends.deterministic c.run_rising h₁ h₂
      exact ⟨rfl, rfl⟩
  | execute h₁ =>
    cases p₂ with
    | execute h₂ =>
      obtain ⟨rfl, rfl⟩ := Ends.deterministic c.execute_rising h₁ h₂
      exact ⟨rfl, rfl⟩
  | insert _ =>
    cases p₂ with
    | insert _ => exact ⟨rfl, rfl⟩

theorem History.deterministic {h h₁ h₂ : Host σ} {ops : List (ContainerId × Operation σ)}
    {responses₁ responses₂ : List (ContainerId × Response)} (p₁ : History h ops responses₁ h₁)
    (p₂ : History h ops responses₂ h₂) : responses₁ = responses₂ ∧ h₁ = h₂ := by
  induction p₁ generalizing responses₂ with
  | nil =>
    cases p₂
    exact ⟨rfl, rfl⟩
  | cons hstep _ ih =>
    cases p₂ with
    | cons hstep' hrest =>
      obtain ⟨rfl, rfl⟩ := hstep.deterministic hstep'
      obtain ⟨rfl, rfl⟩ := ih hrest
      exact ⟨rfl, rfl⟩

end Host

/-! ## What an operation does to the store -/

/-- From `s` to `s₁` the container has been given those queues and its context that content and that
lock, and nothing else has changed. -/
structure Store.Rewrites (c : ContainerId) (queues : List (Queue (Task σ))) (shared : SharedContext)
    (s s₁ : Store σ) : Prop where
  has_iff : ∀ {d}, s₁.Has d ↔ s.Has d
  container_self : s₁.container c = { s.container c with queues }
  container_ne : ∀ {d}, d ≠ c → s₁.container d = s.container d
  contextOf_self : s₁.contextOf c = shared
  contextOf_ne : ∀ {d}, d ≠ c → s.Has d → s₁.contextOf d = s.contextOf d
  objects_eq : s₁.objects = s.objects
  separate : s₁.Separate

namespace Store.Rewrites

variable {s s₁ s₂ : Store σ} {c : ContainerId}

theorem queues (hs : s.Separate) (hc : s.Has c)
    (f : List (Queue (Task σ)) → List (Queue (Task σ))) :
    Rewrites c (f (s.container c).queues) (s.contextOf c) s
      (s.modifyContainer c fun k => { k with queues := f k.queues }) := by
  have hself := container_modifyContainer_self hc fun k => { k with queues := f k.queues }
  refine ⟨has_modifyContainer, hself, fun hd => container_modifyContainer_ne (Ne.symm hd) _, ?_,
    fun hd _ => ?_, rfl, hs.queues c f⟩
  · simp only [contextOf, hself]
    rfl
  · simp only [contextOf, container_modifyContainer_ne (Ne.symm hd)]
    rfl

theorem context (hs : s.Separate) (hc : s.Has c) (f : SharedContext → SharedContext) :
    Rewrites c (s.container c).queues (f (s.contextOf c)) s
      (s.modifyContext (s.container c).context f) := by
  refine ⟨has_modifyContext, container_modifyContext _ _ _ _,
    fun _ => container_modifyContext _ _ _ _, ?_, fun {d} hd hhas => ?_, rfl,
    hs.modifyContext _ f⟩
  · rw [hs.contextOf_modifyContext hc, if_pos rfl]
  · rw [hs.contextOf_modifyContext hhas, if_neg hd]

theorem trans {queues₁ queues₂ : List (Queue (Task σ))} {shared₁ shared₂ : SharedContext}
    (h₁ : Rewrites c queues₁ shared₁ s s₁) (h₂ : Rewrites c queues₂ shared₂ s₁ s₂) :
    Rewrites c queues₂ shared₂ s s₂ where
  has_iff := h₂.has_iff.trans h₁.has_iff
  container_self := by rw [h₂.container_self, h₁.container_self]
  container_ne hd := (h₂.container_ne hd).trans (h₁.container_ne hd)
  contextOf_self := h₂.contextOf_self
  contextOf_ne hd hhas :=
    (h₂.contextOf_ne hd (h₁.has_iff.2 hhas)).trans (h₁.contextOf_ne hd hhas)
  objects_eq := h₂.objects_eq.trans h₁.objects_eq
  separate := h₂.separate

end Store.Rewrites

/-! ## One operation on two hosts -/

/-- The contexts are the same, and `S` holds between the states. -/
def Scope.Within (S : σ → σ → Prop) (s s' : Scope σ) : Prop :=
  s.context = s'.context ∧ S s.state s'.state

namespace Host

/-- The hosts are alike where the container is concerned, and `S` holds between their states. The
tasks that wait in the container respect `S`, and so do the objects that are known to them. -/
structure Matches (S : σ → σ → Prop) (known : TaskId → Prop) (c : ContainerId) (h h' : Host σ) :
    Prop where
  state : S h.machine.state h'.machine.state
  objects : h.machine.store.objects = h'.machine.store.objects
  confined : ∀ {id t}, known id → h.machine.store.object? id = some t →
    t.Confined (Scope.Within S) known
  separate : h.machine.store.Separate
  separate' : h'.machine.store.Separate
  has : h.machine.store.Has c
  has' : h'.machine.store.Has c
  container : h.machine.store.container c = h'.machine.store.container c
  handles : ∀ handle ∈ (h.machine.store.container c).handles,
    handle.task.Confined (Scope.Within S) known
  shared : h.machine.store.contextOf c = h'.machine.store.contextOf c
  own : h.contexts c = h'.contexts c

/-- From `h` to `h₁` nothing has changed but the container, its context and the contexts on which it
is executed. -/
structure Changes (c : ContainerId) (queues : List (Queue (Task σ))) (shared : SharedContext)
    (h h₁ : Host σ) : Prop where
  store : h.machine.store.Rewrites c queues shared h₁.machine.store
  own_ne : ∀ {d}, d ≠ c → h₁.contexts d = h.contexts d

variable {S : σ → σ → Prop} {known : TaskId → Prop} {c : ContainerId} {h h' h₁ : Host σ}

theorem Matches.mirrorsAt (hm : Matches S known c h h') (context : Context) :
    MirrorsAt (Scope.Within S) known c { h.machine with context } { h'.machine with context } :=
  ⟨⟨⟨rfl, hm.state⟩, hm.objects, hm.confined⟩, hm.has, hm.has', hm.container, hm.handles⟩

theorem Matches.mirrorsAt_held (hm : Matches S known c h h') :
    MirrorsAt (Scope.Within S) known c (h.machine.held c) (h'.machine.held c) := by
  have hcontext : (h.machine.held c).context = (h'.machine.held c).context :=
    congrArg SharedContext.content hm.shared
  refine ⟨⟨⟨hcontext, hm.state⟩, hm.objects, hm.confined⟩, hm.has, hm.has', ?_, ?_⟩
  · simp only [Machine.held, Store.container_modifyContext]
    exact hm.container
  · simp only [Machine.held, Store.container_modifyContext]
    exact hm.handles

/-- A run writes what is in hand back with the lock. -/
theorem rewrites_released {m m₁ : Machine σ} (hs : m.store.Separate) (hc : m.store.Has c)
    {queues : List (Queue (Task σ))} (hstore : m₁.store = ((m.held c).withQueues c queues).store)
    (own : Context) :
    m.store.Rewrites c queues ⟨m₁.context, false⟩ (m₁.released c own).store := by
  have hlock := Store.Rewrites.context hs hc fun shared => { shared with locked := true }
  have hqueues := hlock.trans
    (.queues hlock.separate (hlock.has_iff.2 hc) fun _ => queues)
  rw [hlock.contextOf_self] at hqueues
  have hm₁ : m.store.Rewrites c queues ⟨(m.store.contextOf c).content, true⟩ m₁.store := by
    rw [hstore]
    exact hqueues
  have hunlock := Store.Rewrites.context hm₁.separate (hm₁.has_iff.2 hc)
    fun _ => ⟨m₁.context, false⟩
  have hqueues₁ : (m₁.store.container c).queues = queues := by rw [hm₁.container_self]
  rw [hqueues₁] at hunlock
  exact hm₁.trans hunlock

/-- What the operation did from `h` to `h₁` it does on the other host, too: it comes out the same and
makes the same changes. What waits then did so before, or was brought in. -/
def Carries (S : σ → σ → Prop) (c : ContainerId) (op : Operation σ) (response : Response)
    (h h₁ h' : Host σ) : Prop :=
  ∃ h₁' queues shared, Performs c h' op response h₁' ∧
    S h₁.machine.state h₁'.machine.state ∧ h₁.contexts c = h₁'.contexts c ∧
    queues.flatMap Queue.handles ⊆ (h.machine.store.container c).handles ++ op.handles ∧
    Changes c queues shared h h₁ ∧ Changes c queues shared h' h₁'

theorem carries_addQueue (hm : Matches S known c h h') {queue : Queue (Task σ)} {m : Machine σ}
    (hadd : Exec.addQueue c queue h.machine = .finished () m) :
    Carries S c (.addQueue queue) .added h { h with machine := m } h' := by
  cases hadd
  have hchange := Store.Rewrites.queues hm.separate hm.has (· ++ [queue])
  have hchange' := Store.Rewrites.queues hm.separate' hm.has' (· ++ [queue])
  rw [← hm.container, ← hm.shared] at hchange'
  refine ⟨_, _, _, .addQueue rfl, hm.state, hm.own, ?_, ⟨hchange, fun _ => rfl⟩,
    ⟨hchange', fun _ => rfl⟩⟩
  simp [Container.handles, Operation.handles]

theorem carries_run (hm : Matches S known c h h') {r : RunResult} {m : Machine σ}
    (hrun : Ends (fun fuel => c.run fuel) h.machine r m) :
    Carries S c .run (.ended r) h { h with machine := m } h' := by
  obtain ⟨fuel, hrun⟩ := hrun
  -- A run that comes to an end has found the lock free.
  have hfree : (h.machine.store.contextOf c).locked = false := by
    rw [← Bool.not_eq_true]
    intro hlocked
    have hblocked : c.run fuel h.machine = .blocked c h.machine :=
      runContainer_of_locked hlocked fuel
    cases hblocked.symm.trans hrun
  have hfree' : (h'.machine.store.contextOf c).locked = false := by rw [← hm.shared, hfree]
  obtain ⟨r', m₁, hexecute, hend⟩ :=
    Exec.finished_of_bind ((runContainer_of_free hfree fuel).symm.trans hrun)
  cases hend
  obtain ⟨queues, m₁', hexecute', hscope, hsubset, hstore, hstore'⟩ :=
    executeContainer_carries (fun _ ht => ht.carries fuel) fuel _ _ _ _ hm.mirrorsAt_held hexecute
  have hchange := rewrites_released hm.separate hm.has hstore h.machine.context
  have hchange' := rewrites_released hm.separate' hm.has' hstore' h'.machine.context
  rw [← hscope.1] at hchange'
  have hrun' : c.run fuel h'.machine = .finished r (m₁'.released c h'.machine.context) :=
    (runContainer_of_free hfree' fuel).trans (Exec.bind_of_finished hexecute')
  refine ⟨_, queues, _, .run ⟨fuel, hrun'⟩, hscope.2, hm.own, fun handle hmem => ?_,
    ⟨hchange, fun _ => rfl⟩, ⟨hchange', fun _ => rfl⟩⟩
  have hmem := hsubset hmem
  simp only [Machine.held, Store.container_modifyContext] at hmem
  exact List.mem_append_left _ hmem

theorem keep_ne (h : Host σ) (own : String) (context : Context) {d : ContainerId} (hd : d ≠ c) :
    h.keep c own context d = h.contexts d := by
  funext name
  simp [keep, hd]

theorem carries_execute (hm : Matches S known c h h') {own : String} {r : RunResult}
    {m : Machine σ} (hrun : Ends (fun fuel => c.execute fuel)
      { h.machine with context := h.contexts c own } r m) :
    Carries S c (.execute own) (.ended r) h
      ⟨{ m with context := h.machine.context }, h.keep c own m.context⟩ h' := by
  obtain ⟨fuel, hrun⟩ := hrun
  obtain ⟨queues, m', hrun', hscope, hsubset, hstore, hstore'⟩ :=
    executeContainer_carries (fun _ ht => ht.carries fuel) fuel _ _ _ _
      (hm.mirrorsAt (h.contexts c own)) hrun
  have hchange : h.machine.store.Rewrites c queues (h.machine.store.contextOf c) m.store := by
    rw [hstore]
    exact .queues hm.separate hm.has fun _ => queues
  have hchange' : h'.machine.store.Rewrites c queues (h.machine.store.contextOf c) m'.store := by
    rw [hstore', hm.shared]
    exact .queues hm.separate' hm.has' fun _ => queues
  have hends : Ends (fun fuel => c.execute fuel)
      { h'.machine with context := h'.contexts c own } r m' := by
    rw [← hm.own]
    exact ⟨fuel, hrun'⟩
  have hown : h.keep c own m.context c = h'.keep c own m'.context c := by
    funext name
    simp only [keep, hm.own, hscope.1]
  exact ⟨_, queues, _, .execute hends, hscope.2, hown,
    fun handle hmem => List.mem_append_left _ (hsubset hmem),
    ⟨hchange, keep_ne h own m.context⟩, ⟨hchange', keep_ne h' own m'.context⟩⟩

theorem carries_insert (hm : Matches S known c h h') (key : String) (value : Value)
    (hfree : (h.machine.store.contextOf c).locked = false) :
    Carries S c (.insert key value)
      (.inserted ((h.machine.store.contextOf c).content.get? key)) h
      { h with
        machine := { h.machine with
          store := h.machine.store.modifyContext (h.machine.store.container c).context
            fun shared => { shared with content := shared.content.insert key value } } } h' := by
  have hfree' : (h'.machine.store.contextOf c).locked = false := by rw [← hm.shared, hfree]
  have hchange := Store.Rewrites.context hm.separate hm.has fun shared =>
    { shared with content := shared.content.insert key value }
  have hchange' := Store.Rewrites.context hm.separate' hm.has' fun shared =>
    { shared with content := shared.content.insert key value }
  have hresponse : (h.machine.store.contextOf c).content.get? key =
      (h'.machine.store.contextOf c).content.get? key := by rw [hm.shared]
  have hqueues : (h'.machine.store.container c).queues =
      (h.machine.store.container c).queues := by
    rw [hm.container]
  rw [hqueues, ← hm.shared] at hchange'
  rw [hresponse]
  exact ⟨_, _, _, .insert hfree', hm.state, hm.own, List.subset_append_left ..,
    ⟨hchange, fun _ => rfl⟩, ⟨hchange', fun _ => rfl⟩⟩

/-- An operation comes out the same on both hosts, and makes the same changes. -/
theorem Performs.carries {op : Operation σ} {response : Response} (hm : Matches S known c h h')
    (hp : Performs c h op response h₁) : Carries S c op response h h₁ h' := by
  cases hp with
  | addQueue hadd => exact carries_addQueue hm hadd
  | run hrun => exact carries_run hm hrun
  | execute hrun => exact carries_execute hm hrun
  | insert hfree => exact carries_insert hm _ _ hfree

end Host

/-! ## Tasks that have nothing in common -/

section Belongs

variable (part : ContainerId → σ → π) (known : ContainerId → TaskId → Prop)

/-- The task sees the context it is given and the part of the state that belongs to the container,
and it leaves the parts of the others alone. So do the objects that it refers to. -/
structure Task.BelongsTo (c : ContainerId) (t : Task σ) : Prop where
  sees : t.Confined (Scope.Within fun x y => part c x = part c y) (known c)
  leaves : ∀ {d}, d ≠ c → ∀ v, t.Confined (Scope.Within fun x y => x = y ∧ part d x = v) (known c)

namespace Host

/-- The tasks that wait in the container belong to it, and so do the objects known to them. -/
structure Sound (c : ContainerId) (h : Host σ) : Prop where
  separate : h.machine.store.Separate
  has : h.machine.store.Has c
  handles : ∀ handle ∈ (h.machine.store.container c).handles, handle.task.BelongsTo part known c
  objects : ∀ {id t}, known c id → h.machine.store.object? id = some t → t.BelongsTo part known c

/-- The hosts are alike where the container is concerned. -/
structure Agrees (c : ContainerId) (h h' : Host σ) : Prop where
  objects : h.machine.store.objects = h'.machine.store.objects
  container : h.machine.store.container c = h'.machine.store.container c
  shared : h.machine.store.contextOf c = h'.machine.store.contextOf c
  own : h.contexts c = h'.contexts c
  part : part c h.machine.state = part c h'.machine.state

end Host
end Belongs

namespace Host

variable {part : ContainerId → σ → π} {known : ContainerId → TaskId → Prop}
variable {c d : ContainerId} {h h' h₁ : Host σ} {op : Operation σ} {response : Response}

theorem Agrees.refl (c : ContainerId) (h : Host σ) : Agrees part c h h := ⟨rfl, rfl, rfl, rfl, rfl⟩

theorem Agrees.symm (ha : Agrees part c h h') : Agrees part c h' h :=
  ⟨ha.objects.symm, ha.container.symm, ha.shared.symm, ha.own.symm, ha.part.symm⟩

theorem Agrees.trans (ha : Agrees part c h h') (ha' : Agrees part c h' h₁) : Agrees part c h h₁ :=
  ⟨ha.objects.trans ha'.objects, ha.container.trans ha'.container, ha.shared.trans ha'.shared,
    ha.own.trans ha'.own, ha.part.trans ha'.part⟩

theorem Sound.matches (hs : Sound part known c h) (hs' : Sound part known c h')
    (ha : Agrees part c h h') :
    Matches (fun x y => part c x = part c y) (known c) c h h' where
  state := ha.part
  objects := ha.objects
  confined hknown hfound := (hs.objects hknown hfound).sees
  separate := hs.separate
  separate' := hs'.separate
  has := hs.has
  has' := hs'.has
  container := ha.container
  handles handle hmem := (hs.handles handle hmem).sees
  shared := ha.shared
  own := ha.own

/-- The host itself, with the part of another container held fixed. -/
theorem Sound.matches_fixed (hs : Sound part known c h) (hd : d ≠ c) :
    Matches (fun x y => x = y ∧ part d x = part d h.machine.state) (known c) c h h where
  state := ⟨rfl, rfl⟩
  objects := rfl
  confined hknown hfound := (hs.objects hknown hfound).leaves hd _
  separate := hs.separate
  separate' := hs.separate
  has := hs.has
  has' := hs.has
  container := rfl
  handles handle hmem := (hs.handles handle hmem).leaves hd _
  shared := rfl
  own := rfl

namespace Performs

/-- An operation comes out the same on hosts that are alike where the container is concerned. -/
theorem mirror (hp : Performs c h op response h₁) (hs : Sound part known c h)
    (hs' : Sound part known c h') (ha : Agrees part c h h') :
    ∃ h₁', Performs c h' op response h₁' ∧ Agrees part c h₁ h₁' := by
  obtain ⟨h₁', queues, shared, hp', hpart, hown, -, hchange, hchange'⟩ :=
    hp.carries (hs.matches hs' ha)
  refine ⟨h₁', hp', ?_, ?_, ?_, hown, hpart⟩
  · rw [hchange.store.objects_eq, hchange'.store.objects_eq, ha.objects]
  · rw [hchange.store.container_self, hchange'.store.container_self, ha.container]
  · rw [hchange.store.contextOf_self, hchange'.store.contextOf_self]

/-- Where another container is concerned, the host stays as it is. -/
theorem frame (hp : Performs c h op response h₁) (hs : Sound part known c h) (hd : d ≠ c)
    (hhas : h.machine.store.Has d) : Agrees part d h h₁ := by
  obtain ⟨h₁', queues, shared, -, ⟨-, hpart⟩, -, -, hchange, -⟩ := hp.carries (hs.matches_fixed hd)
  exact ⟨hchange.store.objects_eq.symm, (hchange.store.container_ne hd).symm,
    (hchange.store.contextOf_ne hd hhas).symm, (hchange.own_ne hd).symm, hpart.symm⟩

theorem sound (hp : Performs c h op response h₁) (hs : Sound part known c h)
    (hop : ∀ handle ∈ op.handles, handle.task.BelongsTo part known c)
    (hd : Sound part known d h) : Sound part known d h₁ := by
  obtain ⟨h₁', queues, shared, -, -, -, hsubset, hchange, -⟩ :=
    hp.carries (hs.matches hs (.refl c h))
  refine ⟨hchange.store.separate, hchange.store.has_iff.2 hd.has, fun handle hmem => ?_,
    fun {id t} hknown hfound => ?_⟩
  · by_cases hdc : d = c
    · subst hdc
      rw [hchange.store.container_self] at hmem
      rcases List.mem_append.1 (hsubset hmem) with hmem | hmem
      · exact hs.handles handle hmem
      · exact hop handle hmem
    · rw [hchange.store.container_ne hdc] at hmem
      exact hd.handles handle hmem
  · simp only [Store.object?, hchange.store.objects_eq] at hfound
    exact hd.objects hknown hfound

end Performs

/-! ## Histories -/

section Histories

variable {ids : List ContainerId} {ops : List (ContainerId × Operation σ)}
  {responses : List (ContainerId × Response)}

/-- The operations on one container have the responses that they have in the history, and leave the
same behind, if no others are made. -/
theorem History.project (hp : History h ops responses h₁)
    (hops : ∀ p ∈ ops, p.1 ∈ ids ∧ ∀ handle ∈ p.2.handles, handle.task.BelongsTo part known p.1)
    (hs : ∀ c ∈ ids, Sound part known c h) (hc : c ∈ ids) (hs' : Sound part known c h')
    (ha : Agrees part c h h') :
    ∃ h₁', History h' (ops.filter (·.1 = c)) (responses.filter (·.1 = c)) h₁' ∧
      Agrees part c h₁ h₁' := by
  induction hp generalizing h' with
  | nil => exact ⟨h', .nil, ha⟩
  | @cons h h₁ h₂ d op response ops responses hstep _ ih =>
    obtain ⟨hd, hop⟩ := hops (d, op) List.mem_cons_self
    have hops := fun p hp => hops p (List.mem_cons_of_mem _ hp)
    have hs₁ : ∀ c ∈ ids, Sound part known c h₁ := fun c hc => hstep.sound (hs d hd) hop (hs c hc)
    by_cases hdc : d = c
    · subst hdc
      obtain ⟨h₁', hstep', ha₁⟩ := hstep.mirror (hs d hd) hs' ha
      obtain ⟨h₂', hrest, ha₂⟩ := ih hops hs₁ (hstep'.sound hs' hop hs') ha₁
      refine ⟨h₂', ?_, ha₂⟩
      rw [List.filter_cons_of_pos (by simp), List.filter_cons_of_pos (by simp)]
      exact .cons hstep' hrest
    · have hframe := hstep.frame (hs d hd) (Ne.symm hdc) (hs c hc).has
      rw [List.filter_cons_of_neg (by simpa using hdc),
        List.filter_cons_of_neg (by simpa using hdc)]
      exact ih hops hs₁ hs' (hframe.symm.trans ha)

/-- The history comes to its end if the operations on each container do so by themselves. -/
theorem exists_history
    (hops : ∀ p ∈ ops, p.1 ∈ ids ∧ ∀ handle ∈ p.2.handles, handle.task.BelongsTo part known p.1)
    (hs : ∀ c ∈ ids, Sound part known c h)
    (hsolo : ∀ c ∈ ids, ∃ hc, Sound part known c hc ∧ Agrees part c h hc ∧
      ∃ responses h', History hc (ops.filter (·.1 = c)) responses h') :
    ∃ responses h₁, History h ops responses h₁ := by
  induction ops generalizing h with
  | nil => exact ⟨[], h, .nil⟩
  | cons p rest ih =>
    obtain ⟨d, op⟩ := p
    obtain ⟨hd, hop⟩ := hops (d, op) List.mem_cons_self
    have hops := fun p hp => hops p (List.mem_cons_of_mem _ hp)
    -- The operation is the next one on its container, so it comes to its end there.
    obtain ⟨hd', hsd, had, responses, h', hhistory⟩ := hsolo d hd
    rw [List.filter_cons_of_pos (by simp)] at hhistory
    cases hhistory with
    | @cons _ hd₁ _ _ _ response _ responses hstep hrest =>
      obtain ⟨h₁, hstep', ha₁⟩ := hstep.mirror hsd (hs d hd) had.symm
      have hs₁ : ∀ c ∈ ids, Sound part known c h₁ := fun c hc =>
        hstep'.sound (hs d hd) hop (hs c hc)
      obtain ⟨responses', h₂, hhistory'⟩ := ih hops hs₁ fun c hc => by
        by_cases hdc : d = c
        · subst hdc
          exact ⟨hd₁, hstep.sound hsd hop hsd, ha₁.symm, responses, h', hrest⟩
        · obtain ⟨hc', hsc, hac, hend⟩ := hsolo c hc
          have hframe := hstep'.frame (hs d hd) (Ne.symm hdc) (hs c hc).has
          rw [List.filter_cons_of_neg (by simpa using hdc)] at hend
          exact ⟨hc', hsc, hframe.symm.trans hac, hend⟩
      exact ⟨_, h₂, .cons hstep' hhistory'⟩

end Histories
end Host

/-- Any sequence of operations on two containers that a registry knows by different names, where the
tasks of the one have nothing in common with those of the other. It comes to its end if and only if
the operations on each container, in their order, do so by themselves; and then each container has
the same responses, the same waiting queues, the same registered context and the same contexts of
its callers as if the operations on the other had never been made. -/
theorem operations_are_isolated {scope : Scope σ} {log : Log} {m : Machine σ}
    (hleads : Leads ⟨scope, Store.empty, log⟩ m) {registry name₁ name₂ : String}
    {a b : ContainerId} (hne : name₁ ≠ name₂) (ha : m.store.find? registry name₁ = some a)
    (hb : m.store.find? registry name₂ = some b) (contexts : ContainerId → String → Context)
    (part : ContainerId → σ → π) (known : ContainerId → TaskId → Prop)
    (hhandles : ∀ c ∈ [a, b], ∀ handle ∈ (m.store.container c).handles,
      handle.task.BelongsTo part known c)
    (hobjects : ∀ c ∈ [a, b], ∀ id t, known c id → m.store.object? id = some t →
      t.BelongsTo part known c)
    (ops : List (ContainerId × Operation σ))
    (hops : ∀ p ∈ ops, p.1 ∈ [a, b] ∧
      ∀ handle ∈ p.2.handles, handle.task.BelongsTo part known p.1) :
    let h : Host σ := ⟨m, contexts⟩
    a ≠ b ∧ (m.store.container a).context ≠ (m.store.container b).context ∧
    ((∃ responses h₁, h.History ops responses h₁) ↔
      ∀ c ∈ [a, b], ∃ responses h₁, h.History (ops.filter (·.1 = c)) responses h₁) ∧
    ∀ responses h₁, h.History ops responses h₁ → ∀ c ∈ [a, b], ∀ responses' h₁',
      h.History (ops.filter (·.1 = c)) responses' h₁' →
        responses' = responses.filter (·.1 = c) ∧
        (h₁'.machine.store.container c).queues = (h₁.machine.store.container c).queues ∧
        h₁'.machine.store.contextOf c = h₁.machine.store.contextOf c ∧
        h₁'.contexts c = h₁.contexts c := by
  intro h
  have hm : m.store.Consistent := hleads.keeps .empty
  have hwell := hm.wellFormed registry
  have hab : a ≠ b := hwell.containers_ne hne ha hb
  have hs : ∀ c ∈ [a, b], h.Sound part known c := by
    intro c hc
    have hhas : m.store.Has c := by
      rcases List.mem_cons.1 hc with rfl | hc
      · exact hwell.has ha
      · rw [List.mem_singleton.1 hc]
        exact hwell.has hb
    exact ⟨hm.separate, hhas, hhandles c hc, hobjects c hc _ _⟩
  refine ⟨hab, fun heq => ?_, ⟨?_, fun hsolo => ?_⟩,
    fun responses h₁ hp c hc responses' h₁' hp' => ?_⟩
  · exact hab (hm.separate.context_injective (hwell.has ha) (hwell.has hb) heq)
  · rintro ⟨responses, h₁, hp⟩ c hc
    obtain ⟨h₁', hp', -⟩ := hp.project hops hs hc (hs c hc) (.refl c h)
    exact ⟨_, h₁', hp'⟩
  · exact Host.exists_history hops hs fun c hc => ⟨h, hs c hc, .refl c h, hsolo c hc⟩
  · obtain ⟨h₂, hp₂, hagrees⟩ := hp.project hops hs hc (hs c hc) (.refl c h)
    obtain ⟨rfl, rfl⟩ := hp'.deterministic hp₂
    exact ⟨rfl, congrArg Container.queues hagrees.container.symm, hagrees.shared.symm,
      hagrees.own.symm⟩

/-- A leaf that marks its context, and fails if the mark is there already. -/
def marking : Task Unit :=
  .leaf "marking" (.read fun s =>
    if s.context.contains "seen" then .done (.error (.plain "seen"))
    else .write { s with context := s.context.insert "seen" true } (.done (.ok ())))

theorem marking_belongs (known : ContainerId → TaskId → Prop) (c : ContainerId) :
    marking.BelongsTo (fun _ _ => ()) known c := by
  have hconfined (S : Unit → Unit → Prop) : marking.Confined (Scope.Within S) (known c) := by
    refine .leaf (.read fun s s' ⟨hcontext, hstate⟩ => ?_)
    rw [hcontext]
    split
    · exact .done _
    · exact .write ⟨rfl, hstate⟩ (.done _)
  exact ⟨hconfined _, fun _ _ => hconfined _⟩

/-- A host that has two containers and nothing for them to do. -/
def founding : Leaf Unit Unit :=
  .create "yards" ⟨"one", none, .keepGoing⟩ fun _ =>
    .create "yards" ⟨"two", none, .failFast⟩ fun _ => .done ()

def foundingEvents : List Event := [.registered "one", .registered "two"]

def founded : Machine Unit := yards [] [] ⟨.empty, false⟩ ⟨.empty, false⟩ foundingEvents

theorem exec_founding :
    founding.exec (Call.answer (Task.execute 1) 1) ⟨⟨.empty, ()⟩, Store.empty, #[]⟩ =
      .finished () founded := by
  rfl

def marks : List (Handle (Task Unit)) := [⟨⟨0⟩, marking⟩, ⟨⟨1⟩, marking⟩, ⟨⟨2⟩, marking⟩]

/-- The run of the second container fails, and leaves a task and a mark behind. -/
def errands : List (ContainerId × Operation Unit) :=
  [(⟨1⟩, .addQueue ⟨marks⟩), (⟨0⟩, .insert "seen" (.int 1)), (⟨1⟩, .run)]

def seen : ExecutionError := .taskFailed "marking" (.plain "seen")

/-- What is in the log after the errands. -/
def errandEvents : List Event :=
  foundingEvents ++ [.queueAdded ⟨1⟩ "two" [⟨0⟩, ⟨1⟩, ⟨2⟩], .runStarted ⟨1⟩ "two",
    .taskStarted (some ⟨1⟩) ⟨0⟩ "marking", .leafStarted "marking",
    .taskStarted (some ⟨1⟩) ⟨1⟩ "marking", .leafStarted "marking"]

def marked (value : Value) : SharedContext := ⟨Context.empty.insert "seen" value, false⟩

theorem history_errands : Host.History ⟨founded, fun _ _ => .empty⟩ errands
    [(⟨1⟩, .added), (⟨0⟩, .inserted none), (⟨1⟩, .ended (.error seen))]
    ⟨yards [] [⟨[⟨⟨2⟩, marking⟩]⟩] (marked (.int 1)) (marked (.bool true)) errandEvents,
      fun _ _ => .empty⟩ := by
  have hrun : ContainerId.run 5 ⟨1⟩
      (yards [] [⟨marks⟩] (marked (.int 1)) ⟨.empty, false⟩ (errandEvents.take 3)) =
      .finished (.error seen) (yards [] [⟨[⟨⟨2⟩, marking⟩]⟩] (marked (.int 1))
        (marked (.bool true)) errandEvents) := by
    rfl
  exact .cons (.addQueue rfl) (.cons (.insert rfl) (.cons (.run ⟨5, hrun⟩) .nil))

theorem yards_operations_are_isolated :
    let m₀ : Machine Unit := ⟨⟨.empty, ()⟩, Store.empty, #[]⟩
    let h : Host Unit := ⟨founded, fun _ _ => .empty⟩
    Leads m₀ founded ∧ founded.store.find? "yards" "one" = some ⟨0⟩ ∧
      founded.store.find? "yards" "two" = some ⟨1⟩ ∧
      ∃ h₁, h.History [(⟨1⟩, .addQueue ⟨marks⟩), (⟨1⟩, .run)]
          [(⟨1⟩, .added), (⟨1⟩, .ended (.error seen))] h₁ ∧
        (h₁.machine.store.container ⟨1⟩).queues = [⟨[⟨⟨2⟩, marking⟩]⟩] ∧
        h₁.machine.store.contextOf ⟨1⟩ = marked (.bool true) := by
  intro m₀ h
  have hends : Ends (fun fuel => (Activity.program id founding).exec fuel) m₀ () founded :=
    ⟨1, exec_founding⟩
  have hleads : Leads m₀ founded := .requests .refl (Activity.visits_done hends)
  have hone : founded.store.find? "yards" "one" = some ⟨0⟩ := by decide
  have htwo : founded.store.find? "yards" "two" = some ⟨1⟩ := by decide
  have hhandles : ∀ c ∈ [(⟨0⟩ : ContainerId), ⟨1⟩], ∀ handle ∈ (founded.store.container c).handles,
      handle.task.BelongsTo (fun _ _ => ()) (fun _ _ => False) c := by
    intro c hc handle hmem
    rcases List.mem_cons.1 hc with rfl | hc
    · cases hmem
    · rw [List.mem_singleton.1 hc] at hmem
      cases hmem
  have hops : ∀ p ∈ errands, p.1 ∈ [(⟨0⟩ : ContainerId), ⟨1⟩] ∧ ∀ handle ∈ p.2.handles,
      handle.task.BelongsTo (fun _ _ => ()) (fun _ _ => False) p.1 := by
    have hmarks : ∀ handle ∈ marks, handle.task = marking := by simp [marks]
    intro p hp
    simp only [errands, List.mem_cons, List.not_mem_nil, or_false] at hp
    rcases hp with rfl | rfl | rfl
    · refine ⟨by simp, fun handle hmem => ?_⟩
      rw [hmarks handle hmem]
      exact marking_belongs _ _
    · exact ⟨by simp, nofun⟩
    · exact ⟨by simp, nofun⟩
  obtain ⟨-, -, hends_iff, hsame⟩ := operations_are_isolated hleads (by decide) hone htwo
    (fun _ _ => .empty) (fun _ _ => ()) (fun _ _ => False) hhandles (fun _ _ _ _ h => h.elim)
    errands hops
  have hmem : (⟨1⟩ : ContainerId) ∈ [(⟨0⟩ : ContainerId), ⟨1⟩] := by decide
  obtain ⟨responses, h₁, halone⟩ := hends_iff.1 ⟨_, _, history_errands⟩ ⟨1⟩ hmem
  obtain ⟨rfl, hqueues, hshared, -⟩ := hsame _ _ history_errands ⟨1⟩ hmem _ _ halone
  exact ⟨hleads, hone, htwo, h₁, halone, hqueues, hshared⟩

end Workflow
