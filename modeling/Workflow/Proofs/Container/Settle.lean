import Workflow.Proofs.Growth

/-! # Workflow.Proofs.Container.Settle

A run of a container seen from the middle: it has a queue in hand, of which some tasks are left, and
the other queues wait. `settle` drains what is in hand and then what waits.

* `settle_of_success`, `settle_of_error_failFast`, `settle_of_error_keepGoing`: what becomes of the
  first task in hand.
* `settle_nil`, `drainContainer_of_nil`, `drainContainer_of_cons`: the next queue.
* `queues_eq_nil_of_drained`, `ok_of_drainContainer_keepGoing`: what the result says.
* `executeContainer_of_drained`, `drained_of_executeContainer`: the run around it.
-/

namespace Workflow

variable {σ : Domain} {execute : Task σ → Exec σ TaskResult} {id : ContainerId}

def Container.handles (c : Container σ) : List (Handle (Task σ)) := c.queues.flatMap Queue.handles

/-- A queue that is drained without an error is drained to its end. -/
theorem rest_eq_empty_of_drain {policy : Policy} {origin : Option ContainerId}
    {hand : List (Handle (Task σ))} {m m' : Machine σ} {d : Drained σ} {summary : Summary}
    (h : drain execute policy origin hand m = .finished d m') (hd : d.result = .ok summary) :
    d.rest = .empty := by
  induction hand generalizing m d summary with
  | nil =>
    cases h
    rfl
  | cons handle rest ih =>
    obtain ⟨result, m₁, -, ⟨failure, -, rfl, -⟩ | ⟨m₂, d', s, -, hrest, rfl⟩⟩ := drain_cons_cases h
    · cases hd
    · cases hresult : d'.result with
      | ok =>
        have hempty : d'.rest = .empty := ih hrest hresult
        exact hempty
      | error failure =>
        simp only [Drained.after, hresult] at hd
        cases hd

theorem ok_of_drain_keepGoing {origin : Option ContainerId} {hand : List (Handle (Task σ))}
    {m m' : Machine σ} {d : Drained σ}
    (h : drain execute .keepGoing origin hand m = .finished d m') : ∃ s, d.result = .ok s := by
  induction hand generalizing m d with
  | nil =>
    cases h
    exact ⟨_, rfl⟩
  | cons handle rest ih =>
    obtain ⟨result, m₁, -, ⟨failure, hpolicy, -⟩ | ⟨m₂, d', s, -, hrest, rfl⟩⟩ := drain_cons_cases h
    · cases hpolicy
    · obtain ⟨s', hs'⟩ := ih hrest
      exact ⟨s ++ s', by rw [Drained.after, hs']; rfl⟩

theorem ok_of_map {f : Summary → Summary} {r : RunResult} {summary : Summary}
    (h : r.map f = .ok summary) : ∃ s, r = .ok s := by
  cases r with
  | ok s => exact ⟨s, rfl⟩
  | error failure => cases h

/-- Drains the tasks in hand and then the queues of the container. -/
def settle (execute : Task σ → Exec σ TaskResult) (id : ContainerId) (policy : Policy)
    (hand : List (Handle (Task σ))) (fuel : Nat) : Exec σ RunResult := do
  let drained ← drain execute policy (some id) hand
  match drained.result with
  | .ok summary => return (← drainContainer execute id fuel).map (summary ++ ·)
  | .error failure =>
    Exec.returnQueue id drained.rest
    return .error failure

theorem Machine.withQueues_grows (m : Machine σ) (id : ContainerId)
    (queues : List (Queue (Task σ))) : m.Grows (m.withQueues id queues) [] :=
  ⟨.modifyContainer _ id fun _ => queues, by simp [withQueues]⟩

theorem Machine.returnQueue_grows (m : Machine σ) (id : ContainerId) (queue : Queue (Task σ)) :
    m.Grows { m with store := m.store.returnQueue id queue } [] :=
  ⟨.returnQueue _ _ _, by simp⟩

theorem drainContainer_of_nil {m : Machine σ} (h : (m.store.container id).queues = [])
    (fuel : Nat) : drainContainer execute id (fuel + 1) m = .finished (.ok .empty) m := by
  simp only [drainContainer]
  rw [Exec.bind_of_finished (Exec.takeQueue_of_nil h)]
  rfl

theorem drainContainer_of_cons {m : Machine σ} {queue : Queue (Task σ)}
    {rest : List (Queue (Task σ))} (hid : m.store.Has id)
    (h : (m.store.container id).queues = queue :: rest) (fuel : Nat) :
    drainContainer execute id (fuel + 1) m =
      settle execute id (m.store.container id).policy queue.handles fuel
        (m.withQueues id rest) := by
  have hpolicy : ((m.withQueues id rest).store.container id).policy =
      (m.store.container id).policy := by
    simp only [Machine.withQueues, Store.container_modifyContainer_self hid]
  simp only [drainContainer]
  rw [Exec.bind_of_finished (Exec.takeQueue_of_cons h)]
  simp only
  rw [Exec.look_bind, hpolicy]
  rfl

theorem settle_nil (policy : Policy) (fuel : Nat) :
    settle execute id policy [] fuel = drainContainer execute id fuel := by
  funext m
  have hdrain : drain execute policy (some id) [] m = .finished ⟨.ok .empty, .empty⟩ m := rfl
  unfold settle
  rw [Exec.bind_of_finished hdrain]
  simp only [Bind.bind, Exec.bind]
  cases drainContainer execute id fuel m with
  | finished result m' => cases result <;> simp [pure, Except.map, Summary.empty_append]
  | blocked container m' => rfl
  | outOfFuel => rfl

section Turn

variable {handle : Handle (Task σ)} {rest : List (Handle (Task σ))} {m m₁ : Machine σ}

/-- The account of a task goes before that of the tasks behind it. -/
theorem settle_after {policy : Policy} {hand hand' : List (Handle (Task σ))} {summary : Summary}
    (h : drain execute policy (some id) hand m =
      (drain execute policy (some id) hand' >>= fun d => pure (d.after summary)) m₁) (fuel : Nat) :
    settle execute id policy hand fuel m =
      (settle execute id policy hand' fuel >>= fun r => pure (r.map (summary ++ ·))) m₁ := by
  simp only [settle, Bind.bind, Exec.bind] at h ⊢
  rw [h]
  cases drain execute policy (some id) hand' m₁ with
  | finished d m₂ =>
    obtain ⟨result, left⟩ := d
    cases result with
    | ok s =>
      simp only [pure, Drained.after, Except.map, Exec.bind]
      cases drainContainer execute id fuel m₂ with
      | finished r m' => cases r <;> simp [Summary.append_assoc]
      | blocked container m' => rfl
      | outOfFuel => rfl
    | error failure => rfl
  | blocked container m₂ => rfl
  | outOfFuel => rfl

theorem settle_of_success {policy : Policy}
    (h : execute handle.task (m.logged (.taskStarted (some id) handle.id handle.task.name)) =
      .finished (.ok ()) m₁) (fuel : Nat) :
    settle execute id policy (handle :: rest) fuel m =
      (settle execute id policy rest fuel >>= fun r => pure (r.map (.ofSuccess ++ ·))) m₁ :=
  settle_after (drain_of_success policy h) fuel

theorem settle_of_error_keepGoing {error : TaskError}
    (h : execute handle.task (m.logged (.taskStarted (some id) handle.id handle.task.name)) =
      .finished (.error error) m₁) (fuel : Nat) :
    settle execute id .keepGoing (handle :: rest) fuel m =
      (settle execute id .keepGoing rest fuel >>= fun r =>
        pure (r.map (.ofFailure (error.attributed handle.task.name) ++ ·)))
        (m₁.logged (.failureNoted (error.attributed handle.task.name))) :=
  settle_after (drain_of_error_keepGoing h) fuel

theorem settle_of_error_failFast {error : TaskError}
    (h : execute handle.task (m.logged (.taskStarted (some id) handle.id handle.task.name)) =
      .finished (.error error) m₁) (fuel : Nat) :
    settle execute id .failFast (handle :: rest) fuel m =
      .finished (.error (error.attributed handle.task.name))
        { m₁ with store := m₁.store.returnQueue id ⟨rest⟩ } := by
  unfold settle
  rw [Exec.bind_of_finished (drain_of_error_failFast h)]
  rfl

/-- What the first task in hand comes to, where the run comes to an end. -/
theorem execute_of_settle {policy : Policy} {fuel : Nat} {r : RunResult} {m' : Machine σ}
    (h : settle execute id policy (handle :: rest) fuel m = .finished r m') :
    ∃ result m₁, execute handle.task
      (m.logged (.taskStarted (some id) handle.id handle.task.name)) = .finished result m₁ := by
  unfold settle at h
  obtain ⟨d, m₂, hdrain, -⟩ := Exec.finished_of_bind h
  obtain ⟨result, m₁, hexec, -⟩ := drain_cons_cases hdrain
  exact ⟨result, m₁, hexec⟩

end Turn

theorem settle_grows (hexec : ∀ t, (execute t).Grows) (policy : Policy)
    (hand : List (Handle (Task σ))) (fuel : Nat) : (settle execute id policy hand fuel).Grows := by
  refine (drain_grows hexec policy id hand).bind fun d => ?_
  cases d.result with
  | ok summary =>
    exact (drainContainer_grows hexec fuel id).bind fun _ => Exec.congruence_grows.pure _
  | error failure =>
    exact ((Exec.congruenceAt_grows id).returnQueue _).bind fun _ => Exec.congruence_grows.pure _

/-! ## Results -/

/-- A run that does not fail leaves no queue behind. -/
theorem queues_eq_nil_of_drained {fuel : Nat} {m m' : Machine σ} {summary : Summary}
    (h : drainContainer execute id fuel m = .finished (.ok summary) m') :
    (m'.store.container id).queues = [] := by
  induction fuel generalizing m summary with
  | zero => cases h
  | succ fuel ih =>
    simp only [drainContainer] at h
    obtain ⟨queue?, m₁, htake, hnext⟩ := Exec.finished_of_bind h
    rcases Exec.takeQueue_cases htake with ⟨hqueues, rfl, rfl⟩ | ⟨queue, rest, -, rfl, -⟩
    · cases hnext
      exact hqueues
    · obtain ⟨policy, m₂, -, h⟩ := Exec.finished_of_bind hnext
      obtain ⟨d, m₃, -, h⟩ := Exec.finished_of_bind h
      cases hresult : d.result with
      | ok first =>
        simp only [hresult] at h
        obtain ⟨r, m₄, hrest, h⟩ := Exec.finished_of_bind h
        cases r with
        | ok second =>
          cases h
          exact ih hrest
        | error failure => cases h
      | error failure =>
        simp only [hresult] at h
        cases h

/-- Under `keepGoing` a run of the container does not fail. -/
theorem ok_of_drainContainer_keepGoing (hexec : ∀ t, (execute t).Grows) {fuel : Nat}
    {m m' : Machine σ} {r : RunResult} (hid : m.store.Has id)
    (hpolicy : (m.store.container id).policy = .keepGoing)
    (h : drainContainer execute id fuel m = .finished r m') : ∃ s, r = .ok s := by
  induction fuel generalizing m r with
  | zero => cases h
  | succ fuel ih =>
    cases hqueues : (m.store.container id).queues with
    | nil =>
      rw [drainContainer_of_nil hqueues] at h
      cases h
      exact ⟨_, rfl⟩
    | cons queue rest =>
      rw [drainContainer_of_cons hid hqueues, hpolicy] at h
      obtain ⟨d, m₁, hdrain, h⟩ := Exec.finished_of_bind h
      obtain ⟨s, hs⟩ := ok_of_drain_keepGoing hdrain
      simp only [hs] at h
      obtain ⟨r', m₂, hrest, h⟩ := Exec.finished_of_bind h
      cases h
      obtain ⟨l, hg⟩ := drain_grows hexec _ _ _ _ _ _ hdrain
      have hg₁ := (m.withQueues_grows id rest).trans hg
      obtain ⟨s', rfl⟩ := ih (hg₁.store.has hid) ((hg₁.store.policy hid).trans hpolicy) hrest
      exact ⟨_, rfl⟩

/-! ## The run -/

/-- A run that did not fail says so at its end. -/
def conclusion (id : ContainerId) (name : String) : RunResult → List Event
  | .ok summary => [.runFinished id name summary]
  | .error _ => []

def Machine.concluded (m : Machine σ) (id : ContainerId) (name : String) (r : RunResult) :
    Machine σ :=
  { m with log := m.log ++ conclusion id name r }

theorem Machine.concluded_grows (m : Machine σ) (name : String) (r : RunResult) :
    m.Grows (m.concluded id name r) (conclusion id name r) := ⟨.refl _, rfl⟩

theorem Machine.concluded_error (m : Machine σ) (name : String) (failure : ExecutionError) :
    m.concluded id name (.error failure) = m := by
  simp [concluded, conclusion]

/-- The machine when a run of the container has started. -/
def Machine.entered (m : Machine σ) (id : ContainerId) : Machine σ :=
  m.logged (.runStarted id (m.store.container id).name)

theorem executeContainer_of_drained {fuel : Nat} {m m₁ : Machine σ} {r : RunResult}
    (h : drainContainer execute id fuel (m.entered id) = .finished r m₁) :
    executeContainer execute fuel id m =
      .finished r (m₁.concluded id (m.store.container id).name r) := by
  rw [Machine.entered] at h
  unfold executeContainer
  rw [Exec.look_bind, Exec.emit_bind, Exec.bind_of_finished h]
  cases r with
  | ok summary => rfl
  | error failure =>
    rw [Machine.concluded_error]
    rfl

theorem drained_of_executeContainer {fuel : Nat} {m m' : Machine σ} {r : RunResult}
    (h : executeContainer execute fuel id m = .finished r m') :
    ∃ m₁, drainContainer execute id fuel (m.entered id) = .finished r m₁ ∧
      m' = m₁.concluded id (m.store.container id).name r := by
  unfold executeContainer at h
  rw [Exec.look_bind, Exec.emit_bind] at h
  obtain ⟨r', m₁, hdrain, h⟩ := Exec.finished_of_bind h
  cases r' with
  | ok summary =>
    cases h
    exact ⟨m₁, hdrain, rfl⟩
  | error failure =>
    cases h
    exact ⟨_, hdrain, (Machine.concluded_error _ _ _).symm⟩

/-! ## A small container -/

/-- A leaf that does nothing but fail. -/
def breaking : Task Unit := .leaf "breaking" (.done (.error (.plain "broken")))

/-- A leaf that adds a queue to the first container. -/
def spawning : Task Unit := .leaf "spawning" (.addQueue ⟨0⟩ ⟨[⟨⟨7⟩, breaking⟩]⟩ (.done (.ok ())))

/-- A leaf that runs the first container and does not mind a failure. -/
def reentering : Task Unit := .leaf "reentering" (.call (.execute ⟨0⟩) fun _ => .done (.ok ()))

/-- One container with those queues, and nothing else. -/
def yard (policy : Policy) (queues : List (Queue (Task Unit))) (log : List Event) : Machine Unit :=
  ⟨⟨.empty, ()⟩, { Store.empty with containers := [⟨"yard", policy, queues, ⟨0⟩⟩] }, ⟨log⟩⟩

/-- What a run of the yard logs of a spawning task. -/
def spawningEvents (task : TaskId) : List Event :=
  [.taskStarted (some ⟨0⟩) task "spawning", .leafStarted "spawning", .queueAdded ⟨0⟩ "yard" [⟨7⟩]]

def breakingEvents (task : TaskId) : List Event :=
  [.taskStarted (some ⟨0⟩) task "breaking", .leafStarted "breaking"]

end Workflow
