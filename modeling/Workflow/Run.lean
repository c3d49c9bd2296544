import Workflow.Machine

/-! # Workflow.Run

Executing tasks, queues and containers.

* `drain`: a queue, front to back. A failure is charged to the task once, at the innermost queue.
* `drainContainer`, `executeContainer`, `runContainer`: the queues of a container, on the context at
  hand or on the container's own.
* `Task.perform`: one task, given how to execute the tasks below it. `Task.execute` ties the knot;
  its fuel bounds the nesting of tasks, the passes of each loop and the queues of each run.
-/

namespace Workflow

variable {σ : Domain}

/-- Carries a program out. `call` answers the requests to run a container. -/
def Program.exec {κ ρ : Type} (call : κ → Exec σ RunResult) :
    Program σ (Task σ) κ ρ → Exec σ ρ
  | .done result => pure result
  | .read next => do (next (← Exec.scope)).exec call
  | .write scope next => do
    Exec.setScope scope
    next.exec call
  | .remark r next => do
    Exec.emit (.remark r)
    next.exec call
  | .find registry name next => do (next (← Exec.look (·.find? registry name))).exec call
  | .create registry registration next => do
    (next (← Exec.create registry registration)).exec call
  | .addQueue container queue next => do
    Exec.addQueue container queue
    next.exec call
  | .inspect container query next => do (next (← Exec.inspect container query)).exec call
  | .call request next => do (next (← call request)).exec call

/-- What draining a queue comes to, and what it leaves in the queue. -/
structure Drained (σ : Domain) where
  result : RunResult
  rest : Queue (Task σ)

/-- The same with an account of earlier tasks put before it. -/
def Drained.after (summary : Summary) (d : Drained σ) : Drained σ :=
  { d with result := d.result.map (summary ++ ·) }

/-- Executes tasks in order. Under `failFast` the first failure ends it, and the tasks behind are
left. -/
def drain (execute : Task σ → Exec σ TaskResult) (policy : Policy) (origin : Option ContainerId) :
    List (Handle (Task σ)) → Exec σ (Drained σ)
  | [] => pure ⟨.ok .empty, .empty⟩
  | handle :: rest => do
    let name := handle.task.name
    Exec.emit (.taskStarted origin handle.id name)
    match ← execute handle.task with
    | .ok () => return (← drain execute policy origin rest).after .ofSuccess
    | .error error =>
      let failure := error.attributed name
      match policy with
      | .failFast => return ⟨.error failure, ⟨rest⟩⟩
      | .keepGoing =>
        Exec.emit (.failureNoted failure)
        return (← drain execute policy origin rest).after (.ofFailure failure)

section Drain

variable {execute : Task σ → Exec σ TaskResult} {origin : Option ContainerId}
  {handle : Handle (Task σ)} {rest : List (Handle (Task σ))} {m m' : Machine σ}

theorem drain_of_success (policy : Policy)
    (h : execute handle.task (m.logged (.taskStarted origin handle.id handle.task.name)) =
      .finished (.ok ()) m') :
    drain execute policy origin (handle :: rest) m =
      (drain execute policy origin rest >>= fun d => pure (d.after .ofSuccess)) m' := by
  simp only [drain]
  rw [Exec.emit_bind, Exec.bind_of_finished h]

theorem drain_of_error_failFast {error : TaskError}
    (h : execute handle.task (m.logged (.taskStarted origin handle.id handle.task.name)) =
      .finished (.error error) m') :
    drain execute .failFast origin (handle :: rest) m =
      .finished ⟨.error (error.attributed handle.task.name), ⟨rest⟩⟩ m' := by
  simp only [drain]
  rw [Exec.emit_bind, Exec.bind_of_finished h]
  rfl

theorem drain_of_error_keepGoing {error : TaskError}
    (h : execute handle.task (m.logged (.taskStarted origin handle.id handle.task.name)) =
      .finished (.error error) m') :
    drain execute .keepGoing origin (handle :: rest) m =
      (drain execute .keepGoing origin rest >>= fun d =>
        pure (d.after (.ofFailure (error.attributed handle.task.name))))
        (m'.logged (.failureNoted (error.attributed handle.task.name))) := by
  simp only [drain]
  rw [Exec.emit_bind, Exec.bind_of_finished h]
  rfl

/-- What draining a queue does after its first task: it stops there, or goes on with the rest, and
has noted the failure before if there was one. -/
theorem drain_cons_cases {policy : Policy} {d : Drained σ}
    (h : drain execute policy origin (handle :: rest) m = .finished d m') :
    ∃ result m₁, execute handle.task
        (m.logged (.taskStarted origin handle.id handle.task.name)) = .finished result m₁ ∧
      ((∃ failure, policy = .failFast ∧ d = ⟨.error failure, ⟨rest⟩⟩ ∧ m' = m₁) ∨
        ∃ m₂ d' summary, (m₂ = m₁ ∨ ∃ failure, m₂ = m₁.logged (.failureNoted failure)) ∧
          drain execute policy origin rest m₂ = .finished d' m' ∧ d = d'.after summary) := by
  simp only [drain] at h
  rw [Exec.emit_bind] at h
  obtain ⟨result, m₁, hexec, h⟩ := Exec.finished_of_bind h
  refine ⟨result, m₁, hexec, ?_⟩
  cases result with
  | ok =>
    obtain ⟨d', m₂, hrest, h⟩ := Exec.finished_of_bind h
    cases h
    exact .inr ⟨m₁, d', _, .inl rfl, hrest, rfl⟩
  | error error =>
    cases policy with
    | failFast =>
      cases h
      exact .inl ⟨_, rfl, rfl, rfl⟩
    | keepGoing =>
      simp only at h
      rw [Exec.emit_bind] at h
      obtain ⟨d', m₂, hrest, h⟩ := Exec.finished_of_bind h
      cases h
      exact .inr ⟨_, d', _, .inr ⟨_, rfl⟩, hrest, rfl⟩

end Drain

/-- Drains a queue that is part of a task, up to the first failure. -/
def drainWithin (execute : Task σ → Exec σ TaskResult) (queue : Queue (Task σ)) :
    Exec σ TaskResult := do
  let drained ← drain execute .failFast none queue.handles
  return (drained.result.mapError .execution).map fun _ => ()

/-- Takes queue after queue out of a container and drains it. No queue is held back meanwhile, so a
task may add queues. What a failure leaves of its queue goes back to the front. -/
def drainContainer (execute : Task σ → Exec σ TaskResult) (id : ContainerId) :
    Nat → Exec σ RunResult
  | 0 => Exec.outOfFuel
  | fuel + 1 => do
    match ← Exec.takeQueue id with
    | none => return .ok .empty
    | some queue =>
      let policy ← Exec.look fun s => (s.container id).policy
      let drained ← drain execute policy (some id) queue.handles
      match drained.result with
      | .ok summary => return (← drainContainer execute id fuel).map (summary ++ ·)
      | .error failure =>
        Exec.returnQueue id drained.rest
        return .error failure

/-- Drains a container on the context at hand. -/
def executeContainer (execute : Task σ → Exec σ TaskResult) (fuel : Nat) (id : ContainerId) :
    Exec σ RunResult := do
  let name ← Exec.look fun s => (s.container id).name
  Exec.emit (.runStarted id name)
  match ← drainContainer execute id fuel with
  | .ok summary =>
    Exec.emit (.runFinished id name summary)
    return .ok summary
  | .error failure => return .error failure

/-- Drains a container on the context registered with it, under the lock of that context. -/
def runContainer (execute : Task σ → Exec σ TaskResult) (fuel : Nat) (id : ContainerId) :
    Exec σ RunResult := do
  let own ← Exec.swapContext (← Exec.lock id)
  let result ← executeContainer execute fuel id
  let content ← Exec.swapContext own
  Exec.unlock id content
  return result

def Call.answer (execute : Task σ → Exec σ TaskResult) (fuel : Nat) : Call → Exec σ RunResult
  | .execute id => executeContainer execute fuel id
  | .run id => runContainer execute fuel id

/-- The passes of a loop from `iterations` on. The condition is asked before the limit is looked at,
so a limit of `n` allows `n` passes and fails only if the condition still holds after them. -/
def iterate (execute : Task σ → Exec σ TaskResult) (name : String) (condition : Condition σ)
    (limit : Option Nat) (body : Factory σ (Task σ)) (iterations : Nat) : Nat → Exec σ TaskResult
  | 0 => Exec.outOfFuel
  | fuel + 1 => do
    if ← Exec.ask condition then
      match limit.filter (· ≤ iterations) with
      | some limit => return .error (.execution (.iterationLimitExceeded name limit))
      | none =>
        match ← drainWithin execute (← body.build) with
        | .ok () => iterate execute name condition limit body (iterations + 1) fuel
        | .error error => return .error error
    else
      Exec.emit (.loopFinished iterations)
      return .ok ()

section Iterate

variable {execute : Task σ → Exec σ TaskResult} {condition : Condition σ} {limit : Option Nat}
  {body : Factory σ (Task σ)} {queue : Queue (Task σ)} {iterations : Nat} {m m₁ m₂ m₃ : Machine σ}

theorem iterate_of_pass (name : String) (fuel : Nat)
    (hask : Exec.ask condition m = .finished true m₁) (hlimit : ∀ n ∈ limit, iterations < n)
    (hbuild : body.build m₁ = .finished queue m₂) :
    iterate execute name condition limit body iterations (fuel + 1) m =
      (drainWithin execute queue >>= fun result =>
        match result with
        | .ok () => iterate execute name condition limit body (iterations + 1) fuel
        | .error error => pure (.error error)) m₂ := by
  have hnone : limit.filter (· ≤ iterations) = none := by
    cases limit with
    | none => rfl
    | some n => simp [hlimit n rfl]
  simp only [iterate]
  rw [Exec.bind_of_finished hask]
  simp only [if_true, hnone]
  exact Exec.bind_of_finished hbuild

theorem iterate_of_true (name : String) (fuel : Nat)
    (hask : Exec.ask condition m = .finished true m₁)
    (hlimit : ∀ n ∈ limit, iterations < n) (hbuild : body.build m₁ = .finished queue m₂)
    {result : TaskResult} (hbody : drainWithin execute queue m₂ = .finished result m₃) :
    iterate execute name condition limit body iterations (fuel + 1) m =
      match result with
      | .ok () => iterate execute name condition limit body (iterations + 1) fuel m₃
      | .error error => .finished (.error error) m₃ := by
  rw [iterate_of_pass name fuel hask hlimit hbuild, Exec.bind_of_finished hbody]
  cases result <;> rfl

theorem iterate_of_exceeded (name : String) (fuel n : Nat)
    (hask : Exec.ask condition m = .finished true m₁) (hn : n ≤ iterations) :
    iterate execute name condition (some n) body iterations (fuel + 1) m =
      .finished (.error (.execution (.iterationLimitExceeded name n))) m₁ := by
  simp only [iterate]
  rw [Exec.bind_of_finished hask]
  simp only [if_true, Option.filter_some, hn, decide_true]
  rfl

end Iterate

namespace Switch

/-- The queue to drain, and how it was come by. Without a case for the key and without a default
there is none. -/
def choose (s : Switch σ (Task σ)) (key : σ.Key) : Event × Option (Queue (Task σ)) :=
  match s.case? key, s.fallback with
  | some queue, _ => (.caseMatched (σ.literal key), some queue)
  | none, some queue => (.caseDefaulted (σ.literal key), some queue)
  | none, none => (.caseMissed (σ.literal key), none)

theorem choose_container? (s : Switch σ (Task σ)) (key : σ.Key) :
    (s.choose key).1.container? = none := by
  unfold choose
  split <;> rfl

end Switch

namespace Task

def performHook {α : Type} (hook : Hook σ α) : Exec σ α := hook.exec fun request => nomatch request

/-- Whether the hook before an aspect's task lets it through; without a hook it is let through. -/
def opens : Option (Hook σ Bool) → Exec σ Bool
  | some hook => performHook hook
  | none => pure true

/-- Executes a task; `execute` is for the tasks of its queues and the task inside it. -/
def perform (execute : Task σ → Exec σ TaskResult) (fuel : Nat) (task : Task σ) :
    Exec σ TaskResult := do
  match task with
  | leaf name body =>
    Exec.emit (.leafStarted name)
    body.exec (Call.answer execute fuel)
  | conditional condition thenQueue elseQueue =>
    let holds ← Exec.ask condition
    Exec.emit (.branched holds)
    drainWithin execute (← (if holds then thenQueue else elseQueue).build)
  | loop condition limit body => iterate execute task.name condition limit body 0 fuel
  | switch s =>
    let (event, queue?) := s.choose (← Exec.ask s.selector)
    Exec.emit event
    match queue? with
    | some queue => drainWithin execute queue
    | none => return .ok ()
  | aspect inner before after =>
    if ← opens before then
      match ← execute inner, after with
      | .ok (), some hook => return .ok (← performHook hook)
      | result, _ => return result
    else
      Exec.emit (.gateClosed inner.name)
      return .ok ()
  | shared inner => execute inner
  | reference r =>
    match ← Exec.look (·.object? r.id) with
    | some task => execute task
    | none => return .ok ()

def execute : Nat → Task σ → Exec σ TaskResult
  | 0, _ => Exec.outOfFuel
  | fuel + 1, task => task.perform (execute fuel) fuel

end Task

/-- Drains a queue that belongs to nothing. -/
def Queue.execute (fuel : Nat) (policy : Policy) (queue : Queue (Task σ)) : Exec σ (Drained σ) :=
  drain (Task.execute fuel) policy none queue.handles

/-- Drains a queue that belongs to nothing up to the first failure, and counts its tasks. -/
def Queue.executeAll (fuel : Nat) (queue : Queue (Task σ)) :
    Exec σ (Except ExecutionError Nat × Queue (Task σ)) := do
  let drained ← queue.execute fuel .failFast
  return (drained.result.map Summary.executed, drained.rest)

namespace ContainerId

/-- Runs the container on the context at hand. -/
def execute (fuel : Nat) (id : ContainerId) : Exec σ RunResult :=
  executeContainer (Task.execute fuel) fuel id

/-- Runs the container on its own context. -/
def run (fuel : Nat) (id : ContainerId) : Exec σ RunResult :=
  runContainer (Task.execute fuel) fuel id

end ContainerId
end Workflow
