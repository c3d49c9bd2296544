import Workflow.Proofs.Blocking
import Workflow.Proofs.Registry

/-! # Workflow.Proofs.Container.Lock

The locks of the registered contexts, and who waits for them. The containers whose runs are in
progress are a stack, and the locks that are held are always theirs; so a run waits for its own lock
if and only if it is inside another run of the same container.

* `Store.Holds`: the locks that are held are those of a list of containers.
* `Store.Holds.lock`, `Store.Holds.unlock`: what a run does to the list at its two ends.
* `Activity.exec_keepsLocks`: what comes to its end has given back what it took.
* `locks_of_visited`: every moment of a computation that begins with no lock held.
-/

namespace Workflow

variable {σ : Domain}

namespace Store

theorem sharedContext_modifyContext_self {s : Store σ} {id : ContextId}
    (h : id.index < s.contexts.length) (f : SharedContext → SharedContext) :
    (s.modifyContext id f).sharedContext id = f (s.sharedContext id) := by
  simp [sharedContext, modifyContext, h]

theorem sharedContext_modifyContext_ne {s : Store σ} {id id' : ContextId} (h : id ≠ id')
    (f : SharedContext → SharedContext) :
    (s.modifyContext id f).sharedContext id' = s.sharedContext id' := by
  have hindex : id.index ≠ id'.index := by
    intro hindex
    exact h (by cases id; cases id'; cases hindex; rfl)
  simp [sharedContext, modifyContext, List.getElem?_modify_ne _ _ hindex]

/-- A write to the context of one container is not seen in that of another. -/
theorem Separate.contextOf_modifyContext {s : Store σ} (h : s.Separate) {c d : ContainerId}
    (hd : s.Has d) (f : SharedContext → SharedContext) :
    (s.modifyContext (s.container c).context f).contextOf d =
      if d = c then f (s.contextOf d) else s.contextOf d := by
  simp only [contextOf, container_modifyContext]
  split
  · subst d
    exact sharedContext_modifyContext_self (h.has_context hd) f
  · rename_i hne
    refine sharedContext_modifyContext_ne (fun heq => ?_) f
    by_cases hc : s.Has c
    · exact hne (h.context_injective hd hc heq.symm)
    · have hle : s.containers.length ≤ c.index := Nat.le_of_not_lt hc
      have hlt := h.has_context hd
      rw [← heq] at hlt
      simp [container, hle] at hlt

theorem Separate.contextOf_register {s : Store σ} (h : s.Separate) {c : ContainerId}
    (hc : s.Has c) (registry : String) (r : Registration) :
    (s.register registry r).2.contextOf c = s.contextOf c := by
  have hlt := h.has_context hc
  simp only [contextOf, container_register hc]
  simp [sharedContext, Store.register, List.getElem?_append_left hlt]

theorem locked_of_not_has {s : Store σ} {c : ContainerId} (hc : ¬ s.Has c) :
    (s.contextOf c).locked = false := by
  have hle : s.containers.length ≤ c.index := Nat.le_of_not_lt hc
  simp [contextOf, sharedContext, container, hle]
  rfl

/-- The containers are there, and of all contexts those registered with them are locked. -/
structure Holds (s : Store σ) (running : List ContainerId) : Prop where
  separate : s.Separate
  has : ∀ {c}, c ∈ running → s.Has c
  locked_iff : ∀ {c}, s.Has c → ((s.contextOf c).locked = true ↔ c ∈ running)

namespace Holds

variable {s : Store σ} {running : List ContainerId} {c : ContainerId}

theorem locked_iff_mem (h : s.Holds running) : (s.contextOf c).locked = true ↔ c ∈ running := by
  by_cases hc : s.Has c
  · exact h.locked_iff hc
  · have hfree := locked_of_not_has hc
    have hnot : c ∉ running := fun hmem => hc (h.has hmem)
    simp [hfree, hnot]

theorem register (h : s.Holds running) (registry : String) (r : Registration) :
    (s.register registry r).2.Holds running := by
  refine ⟨h.separate.register registry r, fun hc => (h.has hc).register registry r,
    fun {c} hc => ?_⟩
  rcases has_register_iff.1 hc with hc | rfl
  · rw [h.separate.contextOf_register hc]
    exact h.locked_iff hc
  · have hcontext : (s.register registry r).2.contextOf (s.register registry r).1 =
        ⟨r.context.getD .empty, false⟩ := by
      simp only [contextOf, container_register_new]
      simp [sharedContext, Store.register]
    have hnew : (s.register registry r).1 ∉ running := fun hmem =>
      absurd (h.has hmem) (Nat.lt_irrefl _)
    simp [hcontext, hnew]

theorem queues (h : s.Holds running) (id : ContainerId)
    (f : List (Queue (Task σ)) → List (Queue (Task σ))) :
    (s.modifyContainer id fun c => { c with queues := f c.queues }).Holds running := by
  refine ⟨h.separate.queues id f, fun hc => has_modifyContainer.2 (h.has hc), fun {c} hc => ?_⟩
  have hid := has_modifyContainer.1 hc
  have hcontext : (s.modifyContainer id fun c => { c with queues := f c.queues }).contextOf c =
      s.contextOf c := by
    simp only [contextOf]
    rw [(Grows.modifyContainer s id f).container hid]
    rfl
  rw [hcontext]
  exact h.locked_iff hid

/-- Of the containers, a write to the context of `c` leaves those of `running'` locked. -/
theorem write (h : s.Holds running) {running' : List ContainerId}
    {f : SharedContext → SharedContext} (hhas : ∀ {d}, d ∈ running' → s.Has d)
    (hlocked : ∀ {d}, s.Has d →
      ((if d = c then f (s.contextOf d) else s.contextOf d).locked = true ↔ d ∈ running')) :
    (s.modifyContext (s.container c).context f).Holds running' := by
  refine ⟨h.separate.modifyContext _ _, hhas, fun {d} hd => ?_⟩
  have hd := has_modifyContext.1 hd
  rw [h.separate.contextOf_modifyContext hd]
  exact hlocked hd

theorem lock (h : s.Holds running) (hc : s.Has c) :
    (s.modifyContext (s.container c).context
      fun shared => { shared with locked := true }).Holds (c :: running) := by
  refine h.write (fun hd => ?_) fun {d} hd => ?_
  · rcases List.mem_cons.1 hd with rfl | hd
    · exact hc
    · exact h.has hd
  · by_cases hdc : d = c <;> simp [hdc, h.locked_iff hd]

/-- The lock is given back, and the others stay. -/
theorem unlock (h : s.Holds running) {running' : List ContainerId}
    (hrunning : ∀ d, d ∈ running' ↔ d ∈ running ∧ d ≠ c) (content : Context) :
    (s.unlock c content).Holds running' := by
  refine h.write (fun hd => h.has ((hrunning _).1 hd).1) fun {d} hd => ?_
  by_cases hdc : d = c <;> simp [hdc, h.locked_iff hd, hrunning]

end Holds

/-- From `s` to `s'` no lock is taken without being given back. -/
def KeepsLocks (s s' : Store σ) : Prop := ∀ running, s.Holds running → s'.Holds running

theorem keepsLocks_progress : Progress (KeepsLocks (σ := σ)) where
  refl _ _ h := h
  trans h₁ h₂ running h := h₂ running (h₁ running h)
  register _ registry r _ _ h := h.register registry r
  queues _ id f _ h := h.queues id f

end Store

/-! ## Runs -/

namespace Machine

variable {m : Machine σ} {id : ContainerId} {running : List ContainerId}

theorem held_holds (h : m.store.Holds running) (hid : m.store.Has id) :
    (m.held id).store.Holds (id :: running) := h.lock hid

/-- A container that is not there has no lock. -/
theorem held_holds_of_not_has (h : m.store.Holds running) (hid : ¬ m.store.Has id) :
    (m.held id).store.Holds running := by
  refine h.write h.has fun {d} hd => ?_
  have hne : d ≠ id := by
    rintro rfl
    exact hid hd
  rw [if_neg hne]
  exact h.locked_iff hd

end Machine

/-- A run has given its lock back when it ends, in whatever way. -/
theorem runContainer_keepsLocks {execute : Task σ → Exec σ TaskResult} {fuel : Nat}
    {id : ContainerId} (hrun : (executeContainer execute fuel id).Moves Store.KeepsLocks) :
    (runContainer execute fuel id).Moves Store.KeepsLocks := by
  intro m r m' h running hm
  cases hlocked : (m.store.contextOf id).locked with
  | true =>
    rw [runContainer_of_locked hlocked] at h
    cases h
  | false =>
    rw [runContainer_of_free hlocked] at h
    obtain ⟨r', m₁, hexec, h⟩ := Exec.finished_of_bind h
    cases h
    have hfree : id ∉ running := by
      intro hmem
      rw [hm.locked_iff_mem.2 hmem] at hlocked
      cases hlocked
    by_cases hid : m.store.Has id
    · refine (hrun _ _ _ hexec _ (m.held_holds hm hid)).unlock (fun d => ?_) _
      by_cases hd : d = id <;> simp [hd, hfree]
    · refine (hrun _ _ _ hexec _ (m.held_holds_of_not_has hm hid)).unlock (fun d => ?_) _
      by_cases hd : d = id <;> simp [hd, hfree]

namespace Activity

/-- What comes to its end has given back the locks that it took. -/
theorem exec_keepsLocks (a : Activity σ) (fuel : Nat) : (a.exec fuel).Moves Store.KeepsLocks :=
  a.moves_of_runs Store.keepsLocks_progress runContainer_keepsLocks fuel

/-- At a moment of a computation the locks are those that were held when it began, and those of the
runs that have begun since and are in progress. -/
theorem Visits.holds {a b : Activity σ} {m m' : Machine σ} {running before : List ContainerId}
    (h : Visits a m running b m') (hm : m.store.Holds before) :
    m'.store.Holds (running ++ before) := by
  induction h generalizing before with
  | refl => exact hm
  | @step a b c m m₁ m₂ pushed running hstep _ ih =>
    rw [List.append_assoc]
    refine ih ?_
    rcases hstep.moves Store.keepsLocks_progress exec_keepsLocks with
      ⟨rfl, hmoves⟩ | ⟨id, rfl, -, hid, -, rfl⟩
    · exact hmoves before hm
    · exact m.held_holds hm hid

theorem run_blocked_iff {m : Machine σ} {running : List ContainerId} {c : ContainerId}
    (hm : m.store.Holds running) :
    c ∈ running ↔ ∀ fuel, c.run fuel m = .blocked c m := by
  constructor
  · intro hmem fuel
    exact runContainer_of_locked (hm.locked_iff_mem.2 hmem) fuel
  · intro hblocked
    cases hlocked : (m.store.contextOf c).locked with
    | true => exact hm.locked_iff_mem.1 hlocked
    | false =>
      -- With no fuel at all, a run that is not kept out has got that far.
      have hrun : runContainer (Task.execute 0) 0 c m = .blocked c m := hblocked 0
      rw [runContainer_of_free hlocked] at hrun
      cases hrun

end Activity

/-- A computation that begins with no lock held, where the containers have come to be in whatever
way, at the moment when `b` begins and the runs of `running` are in progress. The locks that are
held are theirs. If `b` is a run, it waits for ever if and only if its container is among them, and
otherwise it has the lock until it ends; so a run that is inside no other never waits. When `b`
ends, with whatever result, the locks are the same again. And `b` waits for ever if and only if it
comes to a run of a container that is inside another run of it. -/
theorem locks_of_visited {scope : Scope σ} {log : Log} {m : Machine σ}
    (hleads : Leads ⟨scope, Store.empty, log⟩ m)
    (hfree : ∀ c, (m.store.contextOf c).locked = false)
    {a b : Activity σ} {running : List ContainerId} {m₁ : Machine σ}
    (h : a.Visits m running b m₁) :
    (∀ c, (m₁.store.contextOf c).locked = true ↔ c ∈ running) ∧
    (∀ c, b = .run c →
      (c ∈ running ↔ ∀ fuel, c.run fuel m₁ = .blocked c m₁) ∧
      (c ∉ running → ∀ fuel, c.run fuel m₁ =
        (c.execute fuel >>= fun r m₂ => .finished r (m₂.released c m₁.context)) (m₁.held c))) ∧
    (∀ fuel v m₂, b.exec fuel m₁ = .finished v m₂ →
      ∀ c, (m₂.store.contextOf c).locked = true ↔ c ∈ running) ∧
    ∀ c m', b.Blocks m₁ c m' ↔
      ∃ running', b.Visits m₁ running' (.run c) m' ∧ c ∈ running' ++ running := by
  have hm : m.store.Holds [] :=
    ⟨(hleads.keeps .empty).separate, nofun, fun {c} _ => by simp [hfree c]⟩
  have hm₁ : m₁.store.Holds running := by simpa using h.holds hm
  refine ⟨fun c => hm₁.locked_iff_mem,
    fun c _ => ⟨Activity.run_blocked_iff hm₁, fun hc fuel => ?_⟩,
    fun fuel v m₂ hend c => (b.exec_keepsLocks fuel m₁ v m₂ hend _ hm₁).locked_iff_mem,
    fun c m' => ?_⟩
  · have hlocked : (m₁.store.contextOf c).locked = false :=
      Bool.eq_false_iff.2 fun hlocked => hc (hm₁.locked_iff_mem.1 hlocked)
    exact runContainer_of_free hlocked fuel
  · rw [Activity.blocks_iff]
    refine exists_congr fun running' => and_congr_right fun hvisits => ?_
    exact (hvisits.holds hm₁).locked_iff_mem

/-- A leaf that runs a container on its own context and does not mind a failure. -/
def relaying (id : ContainerId) : Task Unit :=
  .leaf "relaying" (.call (.run id) fun _ => .done (.ok ()))

/-- A host that has two containers, of which the first fails and then runs the second, and the
second runs the first. -/
def entangling : Leaf Unit Unit :=
  .create "yards" ⟨"one", none, .keepGoing⟩ fun one =>
    .create "yards" ⟨"two", none, .failFast⟩ fun two =>
      .addQueue one ⟨[⟨⟨0⟩, breaking⟩, ⟨⟨1⟩, relaying two⟩]⟩
        (.addQueue two ⟨[⟨⟨2⟩, relaying one⟩]⟩ (.done ()))

/-- The two containers with those queues and those contexts. -/
def yards (queues₁ queues₂ : List (Queue (Task Unit))) (shared₁ shared₂ : SharedContext)
    (log : List Event) : Machine Unit :=
  let tables : Registry :=
    ⟨.ofList [("one", ⟨0⟩), ("two", ⟨1⟩)], .ofList [("one", ⟨0⟩), ("two", ⟨1⟩)]⟩
  ⟨⟨.empty, ()⟩,
    { Store.empty with
      containers := [⟨"one", .keepGoing, queues₁, ⟨0⟩⟩, ⟨"two", .failFast, queues₂, ⟨1⟩⟩]
      contexts := [shared₁, shared₂]
      registries := .ofList [("yards", tables)] }, ⟨log⟩⟩

/-- What the host has done before it runs a container. -/
def entanglingEvents : List Event :=
  [.registered "one", .registered "two", .queueAdded ⟨0⟩ "one" [⟨0⟩, ⟨1⟩],
    .queueAdded ⟨1⟩ "two" [⟨2⟩]]

def entangled : Machine Unit :=
  yards [⟨[⟨⟨0⟩, breaking⟩, ⟨⟨1⟩, relaying ⟨1⟩⟩]⟩] [⟨[⟨⟨2⟩, relaying ⟨0⟩⟩]⟩]
    ⟨.empty, false⟩ ⟨.empty, false⟩ entanglingEvents

/-- The run of the first container from within that of the second waits. -/
def stuck : Machine Unit :=
  yards [] [] ⟨.empty, true⟩ ⟨.empty, true⟩
    (entanglingEvents ++ [.runStarted ⟨0⟩ "one"] ++ breakingEvents ⟨0⟩ ++
      [.failureNoted (.taskFailed "breaking" (.plain "broken")),
        .taskStarted (some ⟨0⟩) ⟨1⟩ "relaying", .leafStarted "relaying", .runStarted ⟨1⟩ "two",
        .taskStarted (some ⟨1⟩) ⟨2⟩ "relaying", .leafStarted "relaying"])

theorem exec_entangling :
    entangling.exec (Call.answer (Task.execute 1) 1) ⟨⟨.empty, ()⟩, Store.empty, #[]⟩ =
      .finished () entangled := by
  rfl

theorem run_entangled : ContainerId.run 9 ⟨0⟩ entangled = .blocked ⟨0⟩ stuck := by
  rfl

theorem yards_locks_of_visited :
    let m₀ : Machine Unit := ⟨⟨.empty, ()⟩, Store.empty, #[]⟩
    Leads m₀ entangled ∧ (∀ c, (entangled.store.contextOf c).locked = false) ∧
      (Activity.run ⟨0⟩).Blocks entangled ⟨0⟩ stuck ∧
      ∃ running, (Activity.run ⟨0⟩).Visits entangled running (.run ⟨0⟩) stuck ∧ ⟨0⟩ ∈ running := by
  intro m₀
  have hends : Ends (fun fuel => (Activity.program id entangling).exec fuel) m₀ () entangled :=
    ⟨1, exec_entangling⟩
  have hleads : Leads m₀ entangled := .requests .refl (Activity.visits_done hends)
  have hfree : ∀ c, (entangled.store.contextOf c).locked = false := by
    rintro ⟨index⟩
    rcases index with _ | _ | index
    · rfl
    · rfl
    · exact Store.locked_of_not_has (by simp [Store.Has, entangled, yards])
  have hblocks : (Activity.run ⟨0⟩).Blocks entangled ⟨0⟩ stuck := ⟨9, run_entangled⟩
  obtain ⟨-, -, -, hwaits⟩ := locks_of_visited hleads hfree .refl (a := .run ⟨0⟩)
  obtain ⟨running, hvisits, hmem⟩ := (hwaits ⟨0⟩ stuck).1 hblocks
  exact ⟨hleads, hfree, hblocks, running, hvisits, by simpa using hmem⟩

end Workflow
