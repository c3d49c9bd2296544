import Workflow.Proofs.Container.History

/-! # Workflow.Proofs.Container.Frame

A computation that does not run a container, and does not ask how many queues it has, knows nothing
of its queues: with other queues, and on another log, it goes the same way, and adds the same queues
behind those that are there. If it does not ask for the policy either, the policy may be another
one too.

* `Exec.Acts`: going the same way whatever the queues and the log.
* `Exec.Framed`: a computation does so where its events say that it took no notice of the container.
* `Task.execute_framed`: so does every task.
-/

namespace Workflow

variable {σ : Domain} {α β : Type}

/-- The machine with another policy and other queues for the container, and with another log. -/
def Machine.reframe (m : Machine σ) (id : ContainerId) (policy : Policy)
    (queues : List (Queue (Task σ))) (log : Log) : Machine σ :=
  { m with store := m.store.modifyContainer id fun c => { c with policy, queues }, log }

namespace Machine

variable {m : Machine σ} {id : ContainerId} {policy : Policy} {queues : List (Queue (Task σ))}
  {log : Log}

theorem reframe_container_self (h : m.store.Has id) :
    (m.reframe id policy queues log).store.container id =
      { m.store.container id with policy, queues } := by
  simp only [reframe]
  rw [Store.container_modifyContainer_self h]

theorem reframe_container_ne {c : ContainerId} (h : id ≠ c) :
    (m.reframe id policy queues log).store.container c = m.store.container c :=
  Store.container_modifyContainer_ne h _

theorem reframe_context (h : m.store.Has id) (c : ContainerId) :
    ((m.reframe id policy queues log).store.container c).context =
      (m.store.container c).context := by
  by_cases hc : id = c
  · subst hc
    rw [reframe_container_self h]
  · rw [reframe_container_ne hc]

theorem reframe_name (h : m.store.Has id) (c : ContainerId) :
    ((m.reframe id policy queues log).store.container c).name = (m.store.container c).name := by
  by_cases hc : id = c
  · subst hc
    rw [reframe_container_self h]
  · rw [reframe_container_ne hc]

theorem reframe_contextOf (h : m.store.Has id) (c : ContainerId) :
    (m.reframe id policy queues log).store.contextOf c = m.store.contextOf c := by
  simp only [Store.contextOf, reframe_context h]
  rfl

/-- What the frame hides is the policy and the number of the queues. -/
theorem reframe_answer (h : m.store.Has id) {c : ContainerId} {query : Query}
    (hcount : c = id → query ≠ .queueCount)
    (hpolicy : c = id → query = .policy → policy = (m.store.container id).policy) :
    query.answer ((m.reframe id policy queues log).store.view c) =
      query.answer (m.store.view c) := by
  by_cases hc : id = c
  · subst hc
    cases query with
    | name => exact reframe_name h id
    | policy =>
      simp only [Query.answer, Store.view, reframe_container_self h]
      exact hpolicy rfl rfl
    | queueCount => exact absurd rfl (hcount rfl)
    | locked => exact congrArg SharedContext.locked (reframe_contextOf h id)
  · simp only [Store.view, reframe_container_ne hc, reframe_contextOf h]

/-- The same frame, put on after a change to another container. -/
theorem reframe_modifyContainer {c : ContainerId} (h : id ≠ c) (f : Container σ → Container σ) :
    (m.reframe id policy queues log).store.modifyContainer c f =
      ({ m with store := m.store.modifyContainer c f }.reframe id policy queues log).store :=
  Store.modifyContainer_comm _ h _ _

end Machine

namespace Exec

/-- From `m`, with that policy but whatever the queues of the container and the log, `x` comes to
`v` and `m'`, with `added` behind the queues and `events` behind the log. -/
def Acts (id : ContainerId) (policy : Policy) (x : Exec σ α) (m : Machine σ) (v : α)
    (m' : Machine σ) (events : List Event) (added : List (Queue (Task σ))) : Prop :=
  ∀ queues log, x (m.reframe id policy queues log) =
    .finished v (m'.reframe id policy (queues ++ added) (log ++ events))

theorem Acts.bind {id : ContainerId} {policy : Policy} {x : Exec σ α} {f : α → Exec σ β}
    {m m₁ m₂ : Machine σ} {a : α} {v : β} {l₁ l₂ : List Event} {q₁ q₂ : List (Queue (Task σ))}
    (hx : x.Acts id policy m a m₁ l₁ q₁) (hf : (f a).Acts id policy m₁ v m₂ l₂ q₂) :
    (x >>= f).Acts id policy m v m₂ (l₁ ++ l₂) (q₁ ++ q₂) := by
  intro queues log
  rw [Exec.bind_of_finished (hx queues log), hf, List.append_assoc, Log.append_append]

/-- What `x` does to the container `id` where its events show that it took no notice of it. -/
structure Additive (id : ContainerId) (x : Exec σ α) (m : Machine σ) (v : α) (m' : Machine σ)
    (events : List Event) (added : List (Queue (Task σ))) : Prop where
  added_eq : addedTo id events = added.map Queue.ids
  started_eq : startedBy id events = []
  acts : ∀ policy, Alike id policy (m.store.container id).policy events →
    x.Acts id policy m v m' events added

def Framed (id : ContainerId) (x : Exec σ α) : Prop :=
  ∀ (m : Machine σ) (v : α) (m' : Machine σ), x m = .finished v m' →
    ∃ events, m.Grows m' events ∧ (m.store.Has id → Unseen id events →
      ∃ added, x.Additive id m v m' events added)

namespace Framed

variable {id : ContainerId}

theorem grows {x : Exec σ α} (h : x.Framed id) : x.Grows := by
  intro m v m' hx
  obtain ⟨events, hg, -⟩ := h m v m' hx
  exact ⟨events, hg⟩

theorem bind {x : Exec σ α} {f : α → Exec σ β} (hx : x.Framed id) (hf : ∀ a, (f a).Framed id) :
    (x >>= f).Framed id := by
  intro m v m' h
  obtain ⟨a, m₁, h₁, h₂⟩ := Exec.finished_of_bind h
  obtain ⟨l₁, hg₁, hx⟩ := hx m a m₁ h₁
  obtain ⟨l₂, hg₂, hf⟩ := hf a m₁ v m' h₂
  refine ⟨l₁ ++ l₂, hg₁.trans hg₂, fun hid hunseen => ?_⟩
  obtain ⟨hu₁, hu₂⟩ := unseen_append.1 hunseen
  obtain ⟨q₁, hx⟩ := hx hid hu₁
  obtain ⟨q₂, hf⟩ := hf (hg₁.store.has hid) hu₂
  refine ⟨q₁ ++ q₂, by simp [hx.added_eq, hf.added_eq], by simp [hx.started_eq, hf.started_eq], ?_⟩
  intro policy hpolicy
  refine (hx.acts policy ?_).bind (hf.acts policy ?_)
  · exact hpolicy.subset (List.subset_append_left ..)
  · rw [hg₁.store.policy hid]
    exact hpolicy.subset (List.subset_append_right ..)

/-- A step that logs nothing and has nothing to do with the container. -/
theorem of_silent {x : Exec σ α} (hgrows : x.Grows)
    (h : ∀ m v m', x m = .finished v m' → m'.log = m.log ∧ (m.store.Has id →
      ∀ policy queues log, x (m.reframe id policy queues log) =
        .finished v (m'.reframe id policy queues log))) : x.Framed id := by
  intro m v m' hx
  obtain ⟨hlog, hacts⟩ := h m v m' hx
  obtain ⟨events, hg⟩ := hgrows m v m' hx
  obtain rfl := hg.events_eq (show m'.log = m.log ++ [] by rw [hlog]; simp)
  refine ⟨[], hg, fun hid _ => ⟨[], rfl, rfl, fun policy _ queues log => ?_⟩⟩
  rw [hacts hid]
  simp

theorem of_scope (f : Scope σ → α × Scope σ) :
    Framed id fun m => .finished (f m.toScope).1 { m with toScope := (f m.toScope).2 } := by
  refine .of_silent (.of_same fun _ _ _ h => ?_) fun _ _ _ h => ?_
  · cases h
    exact ⟨rfl, rfl⟩
  · cases h
    exact ⟨rfl, fun _ _ _ _ => rfl⟩

theorem look {f : Store σ → α} (h : ∀ (m : Machine σ) policy queues log, m.store.Has id →
    f (m.reframe id policy queues log).store = f m.store) : (Exec.look f).Framed id := by
  refine .of_silent (.of_same fun _ _ _ h => ?_) fun m v m' hx => ?_
  · cases h
    exact ⟨rfl, rfl⟩
  · cases hx
    refine ⟨rfl, fun hid policy queues log => ?_⟩
    simp only [Exec.look, h m policy queues log hid]

/-- Likewise with an event that is about no queues of the container. -/
theorem emit (e : Event) (h : e.container? ≠ some id) : (Exec.emit (σ := σ) e).Framed id := by
  intro m v m' hx
  cases hx
  refine ⟨[e], .logged m e, fun _ _ => ⟨[], ?_, ?_, fun policy _ queues log => ?_⟩⟩
  · simp [addedTo, Event.added?_eq_none h]
  · simp [startedBy, Event.started?_eq_none h]
  · rw [List.append_nil]
    rfl

theorem create (registry : String) (r : Registration) :
    (Exec.create (σ := σ) registry r).Framed id := by
  intro m v m' h
  rcases create_cases h with ⟨hfind, rfl⟩ | ⟨hfind, rfl, rfl⟩
  · refine ⟨_, .logged m _, fun _ _ => ⟨[], rfl, rfl, fun policy _ queues log => ?_⟩⟩
    have hfind' : (m.reframe id policy queues log).store.find? registry r.name = some v := hfind
    rw [create_of_some hfind', List.append_nil]
    rfl
  · refine ⟨[.registered r.name], ⟨.register _ _ _, by simp⟩,
      fun hid _ => ⟨[], rfl, rfl, fun policy _ queues log => ?_⟩⟩
    have hfind' : (m.reframe id policy queues log).store.find? registry r.name = none := hfind
    have hregister : (m.reframe id policy queues log).store.register registry r = _ :=
      Store.register_modifyContainer hid registry r _
    rw [create_of_none hfind', hregister, List.append_nil]
    rfl

theorem inspect (c : ContainerId) (query : Query) :
    (Exec.inspect (σ := σ) c query).Framed id := by
  intro m v m' h
  cases h
  refine ⟨_, .logged m _, fun hid hunseen => ⟨[], rfl, rfl, fun policy hpolicy queues log => ?_⟩⟩
  have hcount : c = id → query ≠ .queueCount := by
    rintro rfl rfl
    exact hunseen.not_counted List.mem_cons_self
  have hpolicy' : c = id → query = .policy → policy = (m.store.container id).policy := by
    rintro rfl rfl
    exact hpolicy.resolve_right fun h => h List.mem_cons_self
  simp only [Exec.inspect, Machine.reframe_answer hid hcount hpolicy', List.append_nil]
  rfl

theorem addQueue (c : ContainerId) (queue : Queue (Task σ)) :
    (Exec.addQueue c queue).Framed id := by
  intro m v m' h
  cases h
  let e := Event.queueAdded c (m.store.container c).name queue.ids
  have hgrows : m.Grows { m with store := m.store.addQueue c queue, log := m.log.push e } [e] :=
    ⟨.modifyContainer _ c (· ++ [queue]), by simp⟩
  refine ⟨[e], hgrows, fun hid _ => ?_⟩
  by_cases hc : id = c
  · subst hc
    refine ⟨[queue], by simp [addedTo, e, Event.added?], rfl, fun policy _ queues log => ?_⟩
    have hstore : (m.reframe id policy queues log).store.addQueue id queue =
        (m.store.addQueue id queue).modifyContainer id fun c =>
          { c with policy, queues := queues ++ [queue] } := by
      simp only [Store.addQueue, Machine.reframe, Store.modifyContainer_twice]
    simp only [Exec.addQueue, Machine.reframe_name hid, hstore]
    simp [Machine.reframe, e]
  · refine ⟨[], by simp [addedTo, e, Event.added?, Ne.symm hc], rfl, fun policy _ queues log => ?_⟩
    simp only [Exec.addQueue, Machine.reframe_name hid, Store.addQueue,
      Machine.reframe_modifyContainer hc, List.append_nil]
    rfl

theorem lock (c : ContainerId) : (Exec.lock (σ := σ) c).Framed id := by
  refine .of_silent (.lock c) fun m v m' h => ?_
  obtain ⟨hlocked, rfl, rfl⟩ := lock_cases h
  refine ⟨rfl, fun hid policy queues log => ?_⟩
  have hlocked' : ((m.reframe id policy queues log).store.contextOf c).locked = false := by
    rw [Machine.reframe_contextOf hid, hlocked]
  rw [lock_of_free hlocked', Machine.reframe_contextOf hid, Machine.reframe_context hid]
  rfl

theorem unlock (c : ContainerId) (content : Context) :
    (Exec.unlock (σ := σ) c content).Framed id := by
  refine .of_silent (Exec.congruence_grows.unlock c content) fun m v m' h => ?_
  cases h
  refine ⟨rfl, fun hid policy queues log => ?_⟩
  simp only [Exec.unlock, Store.unlock, Machine.reframe_context hid]
  rfl

theorem takeQueue {c : ContainerId} (hc : id ≠ c) : (Exec.takeQueue (σ := σ) c).Framed id := by
  refine .of_silent (.takeQueue c) fun m v m' h => ?_
  rcases takeQueue_cases h with ⟨hqueues, rfl, rfl⟩ | ⟨queue, rest, hqueues, rfl, rfl⟩
  · refine ⟨rfl, fun _ policy queues log => takeQueue_of_nil ?_⟩
    rw [Machine.reframe_container_ne hc, hqueues]
  · refine ⟨rfl, fun _ policy queues log => ?_⟩
    have hqueues' :
        ((m.reframe id policy queues log).store.container c).queues = queue :: rest := by
      rw [Machine.reframe_container_ne hc, hqueues]
    rw [takeQueue_of_cons hqueues', Machine.withQueues, Machine.reframe_modifyContainer hc]
    rfl

theorem returnQueue {c : ContainerId} (hc : id ≠ c) (queue : Queue (Task σ)) :
    (Exec.returnQueue c queue).Framed id := by
  refine .of_silent ((Exec.congruenceAt_grows c).returnQueue queue) fun m v m' h => ?_
  cases h
  refine ⟨rfl, fun _ policy queues log => ?_⟩
  simp only [Exec.returnQueue, Store.returnQueue]
  split
  · rfl
  · rw [Machine.reframe_modifyContainer hc]
    rfl

theorem ask (question : Scope σ → Answer σ α) : (Exec.ask question).Framed id := by
  intro m v m' h
  cases h
  refine ⟨(question m.toScope).remarks.map .remark, ⟨.refl _, ?_⟩,
    fun _ _ => ⟨[], ?_, ?_, fun policy _ queues log => ?_⟩⟩
  · rw [Log.foldl_push_remark]
  · simp [addedTo, Event.added?]
  · simp [startedBy, Event.started?]
  · simp only [Exec.ask, Log.foldl_push_remark, List.append_nil]
    rfl

/-- A run of the container itself is seen, and nothing is said of it here. -/
theorem of_run {f : Unit → Exec σ α} (name : String) (hf : ∀ u, (f u).Grows) :
    (Exec.emit (.runStarted id name) >>= f).Framed id := by
  intro m v m' h
  obtain ⟨events, hg⟩ := hf () _ v m' h
  refine ⟨_, (Machine.Grows.logged m _).trans hg, fun _ hunseen => ?_⟩
  exact absurd (List.mem_append_left _ List.mem_cons_self) (hunseen.not_run name)

end Framed

/-! ## The engine -/

theorem congruence_framed (id : ContainerId) :
    Exec.Congruence (σ := σ) (fun x _ => x.Framed id) where
  outOfFuel _ _ _ _ h := by cases h
  pure a := .of_scope fun scope => (a, scope)
  bind := .bind
  emit e he := .emit e (by rw [he]; nofun)
  ask := .ask
  scope := .of_scope fun scope => (scope, scope)
  setScope scope := .of_scope fun _ => ((), scope)
  swapContext context := .of_scope fun scope => (scope.context, { scope with context })
  modifyState f := .of_scope fun scope =>
    ((f scope.state).1, { scope with state := (f scope.state).2 })
  find _ _ := .look fun _ _ _ _ _ => rfl
  object _ := .look fun _ _ _ _ _ => rfl
  create := .create
  inspect := .inspect
  addQueue := .addQueue
  lock := .lock
  unlock := .unlock

theorem congruenceAt_framed {id c : ContainerId} (hc : id ≠ c) :
    Exec.CongruenceAt (σ := σ) (fun x _ => x.Framed id) c where
  emit e he := .emit e (by rw [he]; simpa using Ne.symm hc)
  name := .look fun _ _ _ _ hid => Machine.reframe_name hid c
  policy := .look fun _ _ _ _ _ => by rw [Machine.reframe_container_ne hc]
  takeQueue := .takeQueue hc
  returnQueue := .returnQueue hc

theorem executeContainer_framed {execute : Task σ → Exec σ TaskResult} {id : ContainerId}
    (hexec : ∀ t, (execute t).Framed id) (fuel : Nat) (c : ContainerId) :
    (executeContainer execute fuel c).Framed id := by
  by_cases hc : id = c
  · subst hc
    refine .bind (.look fun _ _ _ _ hid => Machine.reframe_name hid id) fun name => ?_
    have hdrain := drainContainer_grows (fun t => (hexec t).grows) fuel id
    refine .of_run name fun _ => hdrain.bind fun result => ?_
    cases result with
    | ok summary => exact .bind (.emit _) fun _ => congruence_grows.pure _
    | error failure => exact congruence_grows.pure _
  · exact @Compatible.executeContainer _ _ execute execute (congruence_framed id).toCompatible _
      (congruenceAt_framed hc) hexec _ _ (Nat.le_refl fuel)

end Exec

theorem Task.execute_framed (id : ContainerId) (fuel : Nat) (t : Task σ) :
    (t.execute fuel).Framed id :=
  (Exec.congruence_framed id).execute
    (fun c fuel _ _ _ _ hexec => Exec.executeContainer_framed hexec fuel c) (Nat.le_refl fuel) t

end Workflow
