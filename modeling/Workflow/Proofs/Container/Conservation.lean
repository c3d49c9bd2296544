import Workflow.Proofs.Container.Ledger
import Workflow.Proofs.Container.Settle
import Workflow.Proofs.Fuel

/-! # Workflow.Proofs.Container.Conservation

No task of a container is lost, given out twice or put out of order, whatever its tasks do: they may
add queues to the container, run it again and go on after the failure of such a run, at any depth.

* `Exec.Conserves`: a computation keeps the books of the container.
* `drain_conserves`, `drainContainer_conserves`: so does a run of the container itself.
* `Task.execute_conserves`: so does every task.
-/

namespace Workflow

variable {σ : Domain} {α β : Type}

/-- Wherever `x` comes to its end, the books of the container balance. -/
def Exec.Conserves (id : ContainerId) (x : Exec σ α) : Prop :=
  ∀ (m : Machine σ) (v : α) (m' : Machine σ), x m = .finished v m' →
    ∃ events, m.Grows m' events ∧ (m.store.Has id → ∃ added, Ledger id m [] m' [] events added)

namespace Exec.Conserves

variable {id : ContainerId}

theorem grows {x : Exec σ α} (h : x.Conserves id) : x.Grows := by
  intro m v m' hx
  obtain ⟨events, hg, -⟩ := h m v m' hx
  exact ⟨events, hg⟩

theorem bind {x : Exec σ α} {f : α → Exec σ β} (hx : x.Conserves id)
    (hf : ∀ a, (f a).Conserves id) : (x >>= f).Conserves id := by
  intro m v m' h
  obtain ⟨a, m₁, h₁, h₂⟩ := Exec.finished_of_bind h
  obtain ⟨l₁, hg₁, hx⟩ := hx m a m₁ h₁
  obtain ⟨l₂, hg₂, hf⟩ := hf a m₁ v m' h₂
  refine ⟨l₁ ++ l₂, hg₁.trans hg₂, fun hid => ?_⟩
  obtain ⟨added₁, hx⟩ := hx hid
  obtain ⟨added₂, hf⟩ := hf (hg₁.store.has hid)
  exact ⟨added₁ ++ added₂, hx.trans hf⟩

/-- A step that logs nothing and leaves the queues alone. -/
theorem of_silent {x : Exec σ α} (hgrows : x.Grows)
    (h : ∀ m v m', x m = .finished v m' → m'.log = m.log ∧ (m.store.Has id →
      (m'.store.container id).queues = (m.store.container id).queues)) : x.Conserves id := by
  intro m v m' hx
  obtain ⟨hlog, hqueues⟩ := h m v m' hx
  obtain ⟨events, hg⟩ := hgrows m v m' hx
  obtain rfl := hg.events_eq (show m'.log = m.log ++ [] by rw [hlog]; simp)
  exact ⟨[], hg, fun hid => ⟨[], .of_calm (hqueues hid) rfl rfl⟩⟩

/-- A step that leaves the store alone. -/
theorem of_look (f : Machine σ → α × Scope σ) :
    Conserves id fun m => .finished (f m).1 { m with toScope := (f m).2 } := by
  refine .of_silent (.of_same fun _ _ _ h => ?_) fun _ _ _ h => ?_
  · cases h
    exact ⟨rfl, rfl⟩
  · cases h
    exact ⟨rfl, fun _ => rfl⟩

/-- An event that gives out no task of the container and adds no queue to it. -/
theorem emit (e : Event) (hadded : e.added? id = none) (hstarted : e.started? id = none) :
    (Exec.emit (σ := σ) e).Conserves id := by
  intro m v m' hx
  cases hx
  refine ⟨[e], .logged m e, fun _ => ⟨[], .of_calm rfl ?_ ?_⟩⟩
  · simp [addedTo, hadded]
  · simp [startedBy, hstarted]

theorem ask (question : Scope σ → Answer σ α) : (Exec.ask question).Conserves id := by
  intro m v m' h
  cases h
  refine ⟨(question m.toScope).remarks.map .remark, ⟨.refl _, Log.foldl_push_remark _ _⟩,
    fun _ => ⟨[], .of_calm rfl ?_ ?_⟩⟩
  · simp [addedTo, Event.added?]
  · simp [startedBy, Event.started?]

theorem create (registry : String) (r : Registration) :
    (Exec.create (σ := σ) registry r).Conserves id := by
  intro m v m' h
  rcases create_cases h with ⟨-, rfl⟩ | ⟨-, rfl, rfl⟩
  · exact ⟨_, .logged m _, fun _ => ⟨[], .of_calm rfl rfl rfl⟩⟩
  · refine ⟨[.registered r.name], ⟨.register _ _ _, by simp⟩,
      fun hid => ⟨[], .of_calm ?_ rfl rfl⟩⟩
    exact congrArg Container.queues (Store.container_register hid registry r)

theorem inspect (c : ContainerId) (query : Query) :
    (Exec.inspect (σ := σ) c query).Conserves id := by
  intro m v m' h
  cases h
  exact ⟨_, .logged m _, fun _ => ⟨[], .of_calm rfl rfl rfl⟩⟩

theorem addQueue (c : ContainerId) (queue : Queue (Task σ)) :
    (Exec.addQueue c queue).Conserves id := by
  intro m v m' h
  cases h
  let e := Event.queueAdded c (m.store.container c).name queue.ids
  have hgrows : m.Grows { m with store := m.store.addQueue c queue, log := m.log.push e } [e] :=
    ⟨.modifyContainer _ c (· ++ [queue]), by simp⟩
  refine ⟨[e], hgrows, fun hid => ?_⟩
  by_cases hc : c = id
  · subst hc
    refine ⟨[queue], .of_addQueue queue ?_ (by simp [addedTo, e, Event.added?]) rfl⟩
    simp only [Store.addQueue, Store.container_modifyContainer_self hid]
  · refine ⟨[], .of_calm ?_ (by simp [addedTo, e, Event.added?, hc]) rfl⟩
    simp only [Store.addQueue, Store.container_modifyContainer_ne hc]

theorem takeQueue {c : ContainerId} (hc : c ≠ id) : (Exec.takeQueue (σ := σ) c).Conserves id := by
  refine .of_silent (.takeQueue c) fun m v m' h => ?_
  rcases takeQueue_cases h with ⟨-, -, rfl⟩ | ⟨queue, rest, -, -, rfl⟩
  · exact ⟨rfl, fun _ => rfl⟩
  · exact ⟨rfl, fun _ => by rw [Machine.withQueues, Store.container_modifyContainer_ne hc]⟩

theorem returnQueue {c : ContainerId} (hc : c ≠ id) (queue : Queue (Task σ)) :
    (Exec.returnQueue c queue).Conserves id := by
  refine .of_silent ((congruenceAt_grows c).returnQueue queue) fun m v m' h => ?_
  cases h
  refine ⟨rfl, fun _ => ?_⟩
  unfold Store.returnQueue
  split
  · rfl
  · rw [Store.container_modifyContainer_ne hc]

theorem lock (c : ContainerId) : (Exec.lock (σ := σ) c).Conserves id := by
  refine .of_silent (.lock c) fun m v m' h => ?_
  obtain ⟨-, -, rfl⟩ := lock_cases h
  exact ⟨rfl, fun _ => by rw [Store.container_modifyContext]⟩

theorem unlock (c : ContainerId) (content : Context) :
    (Exec.unlock (σ := σ) c content).Conserves id := by
  refine .of_silent (congruence_grows.unlock c content) fun m v m' h => ?_
  cases h
  exact ⟨rfl, fun _ => by rw [Store.unlock, Store.container_modifyContext]⟩

end Exec.Conserves

theorem Exec.congruence_conserves (id : ContainerId) :
    Exec.Congruence (σ := σ) (fun x _ => x.Conserves id) where
  outOfFuel _ _ _ _ h := by cases h
  pure a := .of_look fun m => (a, m.toScope)
  bind := .bind
  emit e he := .emit e (Event.added?_eq_none (by rw [he]; nofun))
    (Event.started?_eq_none (by rw [he]; nofun))
  ask := .ask
  scope := .of_look fun m => (m.toScope, m.toScope)
  setScope scope := .of_look fun _ => ((), scope)
  swapContext context := .of_look fun m => (m.context, { m.toScope with context })
  modifyState f := .of_look fun m => ((f m.state).1, { m.toScope with state := (f m.state).2 })
  find registry name := .of_look fun m => (m.store.find? registry name, m.toScope)
  object o := .of_look fun m => (m.store.object? o, m.toScope)
  create := .create
  inspect := .inspect
  addQueue := .addQueue
  lock := .lock
  unlock := .unlock

theorem Exec.congruenceAt_conserves {id c : ContainerId} (hc : c ≠ id) :
    Exec.CongruenceAt (σ := σ) (fun x _ => x.Conserves id) c where
  emit e he := .emit e (Event.added?_eq_none (by rw [he]; simpa using hc))
    (Event.started?_eq_none (by rw [he]; simpa using hc))
  name := .of_look fun m => ((m.store.container c).name, m.toScope)
  policy := .of_look fun m => ((m.store.container c).policy, m.toScope)
  takeQueue := .takeQueue hc
  returnQueue := .returnQueue hc

/-! ## The runs of the container -/

section Run

variable {execute : Task σ → Exec σ TaskResult} {id : ContainerId}
variable (hexec : ∀ t, (execute t).Conserves id)
include hexec

/-- Draining a queue in hand keeps the books, and what is left in hand at the end was not taken. -/
theorem drain_conserves {policy : Policy} {hand : List (Handle (Task σ))} {m m' : Machine σ}
    {d : Drained σ} (h : drain execute policy (some id) hand m = .finished d m') :
    ∃ events, m.Grows m' events ∧
      (m.store.Has id → ∃ added, Ledger id m hand m' d.rest.handles events added) := by
  induction hand generalizing m d with
  | nil =>
    cases h
    exact ⟨[], .refl _, fun _ => ⟨[], .of_calm rfl rfl rfl⟩⟩
  | cons handle rest ih =>
    obtain ⟨result, m₁, hx, hcases⟩ := drain_cons_cases h
    obtain ⟨l₁, hg₁, hledger₁⟩ := hexec _ _ _ _ hx
    have hstart := Machine.Grows.logged m (.taskStarted (some id) handle.id handle.task.name)
    rcases hcases with ⟨failure, -, rfl, rfl⟩ | ⟨m₂, d', summary, hnoted, hrest, rfl⟩
    · refine ⟨_, hstart.trans hg₁, fun hid => ?_⟩
      obtain ⟨added₁, hledger₁⟩ := hledger₁ hid
      exact ⟨_, (Ledger.of_start handle rest _).trans (hledger₁.hold rest)⟩
    · obtain ⟨l₂, hg₂, hledger₂⟩ : ∃ l₂, m₁.Grows m₂ l₂ ∧ Ledger id m₁ rest m₂ rest l₂ [] := by
        rcases hnoted with rfl | ⟨failure, rfl⟩
        · exact ⟨[], .refl _, .of_calm rfl rfl rfl⟩
        · exact ⟨_, .logged _ _, .of_calm rfl rfl rfl⟩
      obtain ⟨l₃, hg₃, hledger₃⟩ := ih hrest
      refine ⟨_, hstart.trans (hg₁.trans (hg₂.trans hg₃)), fun hid => ?_⟩
      have hid₁ := hg₁.store.has hid
      obtain ⟨added₁, hledger₁⟩ := hledger₁ hid
      obtain ⟨added₃, hledger₃⟩ := hledger₃ (hg₂.store.has hid₁)
      exact ⟨_, (Ledger.of_start handle rest _).trans
        ((hledger₁.hold rest).trans (hledger₂.trans hledger₃))⟩

theorem drainContainer_conserves (fuel : Nat) : (drainContainer execute id fuel).Conserves id := by
  have hgrows : ∀ t, (execute t).Grows := fun t => (hexec t).grows
  induction fuel with
  | zero => intro m v m' h; cases h
  | succ fuel ih =>
    intro m v m' h
    obtain ⟨events, hg⟩ := drainContainer_grows hgrows (fuel + 1) id m v m' h
    refine ⟨events, hg, fun hid => ?_⟩
    cases hqueues : (m.store.container id).queues with
    | nil =>
      rw [drainContainer_of_nil hqueues] at h
      cases h
      obtain rfl := hg.events_eq (Machine.Grows.refl m).log
      exact ⟨[], .of_calm rfl rfl rfl⟩
    | cons queue rest =>
      rw [drainContainer_of_cons hid hqueues] at h
      have hg₀ := m.withQueues_grows id rest
      obtain ⟨d, m₁, hdrain, h⟩ := Exec.finished_of_bind h
      obtain ⟨l₁, hg₁, hledger₁⟩ := drain_conserves hexec hdrain
      have hid₀ := hg₀.store.has hid
      obtain ⟨added₁, hledger₁⟩ := hledger₁ hid₀
      have hledger := Ledger.of_hand hid (hg₁.store.has hid₀) hqueues hledger₁
      cases hresult : d.result with
      | error failure =>
        simp only [hresult] at h
        cases h
        have hg' := hg₀.trans (hg₁.trans (m₁.returnQueue_grows id d.rest))
        rw [List.append_nil] at hg'
        obtain rfl : l₁ = events := hg'.events_eq hg.log
        exact ⟨added₁, hledger⟩
      | ok summary =>
        rw [rest_eq_empty_of_drain hdrain hresult] at hledger
        simp only [hresult] at h
        obtain ⟨r, m₂, hrest, h⟩ := Exec.finished_of_bind h
        cases h
        obtain ⟨l₂, hg₂, hledger₂⟩ := ih m₁ r _ hrest
        obtain ⟨added₂, hledger₂⟩ := hledger₂ (hg₁.store.has hid₀)
        obtain rfl : l₁ ++ l₂ = events := (hg₀.trans (hg₁.trans hg₂)).events_eq hg.log
        exact ⟨added₁ ++ added₂, hledger.trans hledger₂⟩

theorem executeContainer_conserves (fuel : Nat) (c : ContainerId) :
    (executeContainer execute fuel c).Conserves id := by
  by_cases hc : c = id
  · subst hc
    have hR := Exec.congruence_conserves (σ := σ) c
    refine .bind (.of_look fun m => ((m.store.container c).name, m.toScope)) fun name => ?_
    refine .bind (.emit _ rfl rfl) fun _ => .bind (drainContainer_conserves hexec fuel) fun r => ?_
    cases r with
    | ok summary => exact .bind (.emit _ rfl rfl) fun _ => hR.pure _
    | error failure => exact hR.pure _
  · exact @Exec.Compatible.executeContainer _ _ execute execute
      (Exec.congruence_conserves id).toCompatible _
      (Exec.congruenceAt_conserves hc) hexec _ _ (Nat.le_refl fuel)

end Run

theorem Task.execute_conserves (id : ContainerId) (fuel : Nat) (t : Task σ) :
    (t.execute fuel).Conserves id :=
  (Exec.congruence_conserves id).execute
    (fun c fuel _ _ _ _ hexec => executeContainer_conserves hexec fuel c) (Nat.le_refl fuel) t

/-- Let a run of a container come to its end, whatever its tasks do: they may add queues to it and
run it again, at any depth. Number the queues, first those that waited before and then those that
were added, in order. Every task that was given out since was taken from one of the queues, and of
each queue what was taken is the first part and what still waits is the rest. The queues that wait
are in the order of their numbers, and one of them is empty only if it was so from the beginning. A
run that does not fail leaves no queue, and under `keepGoing` it does not fail. -/
theorem nothing_is_lost {id : ContainerId} {m m' : Machine σ} {r : RunResult}
    (hid : m.store.Has id) (h : Ends (fun fuel => id.execute fuel) m r m') :
    (∃ (events : List Event) (added : List (Queue (Task σ))) (taken : List (Handle (Task σ) × Nat))
      (waiting : List (Queue (Task σ) × Nat)),
      m'.log = m.log ++ events ∧ addedTo id events = added.map Queue.ids ∧
      startedBy id events = taken.map (·.1.id) ∧
      waiting.map Prod.fst = (m'.store.container id).queues ∧ waiting.Pairwise (·.2 < ·.2) ∧
      (∀ number, (((m.store.container id).queues ++ added)[number]?.getD .empty).handles =
        takenFrom number taken ++ contentOf number waiting) ∧
      ∀ p ∈ waiting, p.1.isEmpty → ((m.store.container id).queues ++ added)[p.2]? = some p.1) ∧
    (∀ s, r = .ok s → (m'.store.container id).queues = []) ∧
    ((m.store.container id).policy = .keepGoing → ∃ s, r = .ok s) := by
  obtain ⟨fuel, h⟩ := h
  have hgrows : ∀ t : Task σ, (t.execute fuel).Grows := Task.execute_grows fuel
  refine ⟨?_, ?_, fun hpolicy => ?_⟩
  · obtain ⟨events, hg, hledger⟩ :=
      executeContainer_conserves (Task.execute_conserves id fuel) fuel id m r m' h
    obtain ⟨added, hledger⟩ := hledger hid
    obtain ⟨taken, waiting, hafter, hbalance, hstarted⟩ :=
      @hledger.kept 0 _ _ _ (fun hne => absurd rfl hne) (Nat.zero_le _) (.zipIdx id m)
    rw [← Nat.zero_add (List.length _), ← List.zipIdx_append] at hbalance
    refine ⟨events, added, taken, waiting, hg.log, hledger.added_eq, hstarted, hafter.queues,
      hafter.increasing, fun number => ?_, fun p hp hempty => ?_⟩
    · rw [← hbalance.contentOf_eq, ← contentOf_zipIdx _ 0 number, Nat.zero_add]
    · exact List.mem_zipIdx_iff_getElem?.1 (hbalance.untouched p hp hempty)
  · rintro s rfl
    obtain ⟨m₁, hdrain, rfl⟩ := drained_of_executeContainer h
    have hempty := queues_eq_nil_of_drained hdrain
    exact hempty
  · obtain ⟨m₁, hdrain, -⟩ := drained_of_executeContainer h
    exact ok_of_drainContainer_keepGoing (m := m.entered id) hgrows hid hpolicy hdrain

def reenteringQueues : List (Queue (Task Unit)) :=
  [⟨[⟨⟨0⟩, reentering⟩, ⟨⟨1⟩, spawning⟩]⟩, ⟨[⟨⟨2⟩, spawning⟩, ⟨⟨3⟩, breaking⟩, ⟨⟨4⟩, spawning⟩]⟩]

/-- The run within the run fails at the second task of the second queue, and leaves the third. -/
def reenteringEvents : List Event :=
  [.runStarted ⟨0⟩ "yard", .taskStarted (some ⟨0⟩) ⟨0⟩ "reentering", .leafStarted "reentering",
    .runStarted ⟨0⟩ "yard"] ++ spawningEvents ⟨2⟩ ++ breakingEvents ⟨3⟩ ++ spawningEvents ⟨1⟩ ++
    spawningEvents ⟨4⟩ ++ breakingEvents ⟨7⟩

theorem execute_reentering : ContainerId.execute 8 ⟨0⟩ (yard .failFast reenteringQueues []) =
    .finished (.error (.taskFailed "breaking" (.plain "broken")))
      (yard .failFast (List.replicate 2 ⟨[⟨⟨7⟩, breaking⟩]⟩) reenteringEvents) := by
  cbv

theorem yard_nothing_is_lost :
    (yard .failFast reenteringQueues []).store.Has ⟨0⟩ ∧
      Ends (fun fuel => ContainerId.execute fuel ⟨0⟩) (yard .failFast reenteringQueues [])
        (.error (.taskFailed "breaking" (.plain "broken")))
        (yard .failFast (List.replicate 2 ⟨[⟨⟨7⟩, breaking⟩]⟩) reenteringEvents) ∧
      ∃ (added : List (Queue (Task Unit))) (taken : List (Handle (Task Unit) × Nat))
        (waiting : List (Queue (Task Unit) × Nat)),
        added.map Queue.ids = [[⟨7⟩], [⟨7⟩], [⟨7⟩]] ∧
        taken.map (·.1.id) = [⟨0⟩, ⟨2⟩, ⟨3⟩, ⟨1⟩, ⟨4⟩, ⟨7⟩] ∧
        waiting.map Prod.fst = List.replicate 2 ⟨[⟨⟨7⟩, breaking⟩]⟩ ∧
        waiting.Pairwise (·.2 < ·.2) ∧
        ∀ number, ((reenteringQueues ++ added)[number]?.getD .empty).handles =
          takenFrom number taken ++ contentOf number waiting := by
  have hid : (yard .failFast reenteringQueues []).store.Has ⟨0⟩ := by simp [yard, Store.Has]
  obtain ⟨⟨events, added, taken, waiting, hlog, hadded, hstarted, hqueues, hincreasing, hparts, _⟩,
    _⟩ := nothing_is_lost hid ⟨8, execute_reentering⟩
  have hevents : events = reenteringEvents := by
    have h := congrArg Array.toList hlog
    simpa [yard] using h.symm
  subst hevents
  exact ⟨hid, ⟨8, execute_reentering⟩, added, taken, waiting, hadded.symm, hstarted.symm, hqueues,
    hincreasing, hparts⟩

end Workflow
