import Workflow.Proofs.Container.Settle
import Workflow.Proofs.Fuel
import Workflow.Proofs.Progress

/-! # Workflow.Proofs.Moments

The moments of a computation. The engine is always in the middle of some activities, one inside the
other, from the one that was begun first to the one that is at work. `Visits a m running b m'` says
that `a`, begun at `m`, comes to the moment at which `b` begins at `m'`, and that `running` are the
containers whose runs on their own contexts are then in progress, the innermost first.

* `Activity.Enters`: one step inwards, or onwards.
* `Exec.Compatible.activity`: the congruence of the engine, for all activities at once.
* `Activity.visits_done`: the end of a program is one of its moments.
* `Activity.Enters.moves`, `Activity.Visits.moves`: what becomes of the store on the way.
-/

namespace Workflow

variable {σ : Domain} {α β : Type}

/-! ## Steps of programs -/

/-- Carries the first request of a program out and answers with what is left to do. -/
def Program.advance {κ ρ : Type} (call : κ → Exec σ RunResult) :
    Program σ (Task σ) κ ρ → Exec σ (Program σ (Task σ) κ ρ)
  | .done result => pure (.done result)
  | .read next => do return next (← Exec.scope)
  | .write scope next => do
    Exec.setScope scope
    return next
  | .remark r next => do
    Exec.emit (.remark r)
    return next
  | .find registry name next => do return next (← Exec.look (·.find? registry name))
  | .create registry registration next => do return next (← Exec.create registry registration)
  | .addQueue container queue next => do
    Exec.addQueue container queue
    return next
  | .inspect container query next => do return next (← Exec.inspect container query)
  | .call request next => do return next (← call request)

theorem Exec.bind_pure_bind {γ : Type} (x : Exec σ α) (f : α → β) (g : β → Exec σ γ) :
    ((x >>= fun a => pure (f a)) >>= g) = x >>= fun a => g (f a) := by
  funext m
  simp only [Bind.bind, Exec.bind]
  cases x m <;> rfl

/-- A program is carried out request by request. -/
theorem Program.exec_eq_advance {κ ρ : Type} (call : κ → Exec σ RunResult)
    (p : Program σ (Task σ) κ ρ) : p.exec call = p.advance call >>= (·.exec call) := by
  cases p with
  | done result => rfl
  | _ => simp only [Program.exec, Program.advance, Exec.bind_pure_bind]

/-- Induction along the requests of a program. -/
theorem Program.advance_induction {κ ρ : Type} (call : κ → Exec σ RunResult)
    {motive : Program σ (Task σ) κ ρ → Prop} (done : ∀ result, motive (.done result))
    (step : ∀ p, (∀ (m : Machine σ) (p' : Program σ (Task σ) κ ρ) (m' : Machine σ),
      p.advance call m = .finished p' m' → motive p') → motive p)
    (p : Program σ (Task σ) κ ρ) : motive p := by
  -- A request is answered first, and what is left of the program is what it says for the answer.
  have of_next {δ : Type} {x : Exec σ δ} {f : δ → Program σ (Task σ) κ ρ} (hf : ∀ v, motive (f v))
      {m m' : Machine σ} {p' : Program σ (Task σ) κ ρ}
      (h : (x >>= fun v => pure (f v)) m = .finished p' m') : motive p' := by
    obtain ⟨v, m₁, -, h⟩ := Exec.finished_of_bind h
    cases h
    exact hf v
  induction p with
  | done result => exact done result
  | read next ih => exact step _ fun _ _ _ => of_next ih
  | write scope next ih => exact step _ fun _ _ _ => of_next fun _ => ih
  | remark r next ih => exact step _ fun _ _ _ => of_next fun _ => ih
  | find registry name next ih => exact step _ fun _ _ _ => of_next ih
  | create registry registration next ih => exact step _ fun _ _ _ => of_next ih
  | addQueue container queue next ih => exact step _ fun _ _ _ => of_next fun _ => ih
  | inspect container query next ih => exact step _ fun _ _ _ => of_next ih
  | call request next ih => exact step _ fun _ _ _ => of_next ih

/-- Of the requests only a call waits. -/
theorem Program.blocked_of_advance {κ ρ : Type} {call : κ → Exec σ RunResult}
    {p : Program σ (Task σ) κ ρ} {m m' : Machine σ} {c : ContainerId}
    (h : p.advance call m = .blocked c m') :
    ∃ request next, p = .call request next ∧ call request m = .blocked c m' := by
  cases p with
  | create registry registration next =>
    rcases Exec.blocked_of_bind h with h | ⟨id, m₁, -, h⟩
    · simp only [Exec.create] at h
      split at h <;> cases h
    · cases h
  | call request next =>
    rcases Exec.blocked_of_bind h with h | ⟨result, m₁, -, h⟩
    · exact ⟨request, next, rfl, h⟩
    · cases h
  | _ => cases h

theorem Exec.Compatible.advance {R : {α : Type} → Exec σ α → Exec σ α → Prop} (hR : Compatible R)
    {κ ρ : Type} {call call' : κ → Exec σ RunResult}
    (hcall : ∀ request, R (call request) (call' request)) (p : Program σ (Task σ) κ ρ) :
    R (p.advance call) (p.advance call') := by
  cases p with
  | done result => exact hR.pure _
  | read next => exact hR.bind hR.scope fun _ => hR.pure _
  | write scope next => exact hR.bind (hR.setScope _) fun _ => hR.pure _
  | remark r next => exact hR.bind (hR.emit _ rfl) fun _ => hR.pure _
  | find registry name next => exact hR.bind (hR.find _ _) fun _ => hR.pure _
  | create registry registration next => exact hR.bind (hR.create _ _) fun _ => hR.pure _
  | addQueue container queue next => exact hR.bind (hR.addQueue _ _) fun _ => hR.pure _
  | inspect container query next => exact hR.bind (hR.inspect _ _) fun _ => hR.pure _
  | call request next => exact hR.bind (hcall _) fun _ => hR.pure _

theorem Program.advance_rising {κ ρ : Type} (calls : κ → Call) (p : Program σ (Task σ) κ ρ) :
    Rising (fun fuel => p.advance fun request =>
      (calls request).answer (Task.execute fuel) fuel) := by
  intro fuel fuel' hle
  exact Exec.congruence_extends.advance
    (fun request => (calls request).answer_rising fuel fuel' hle) p

/-! ## Activities -/

/-- What the engine can be in the middle of. The rest of a program, of a queue, of the passes of a
loop and of a container's queues is an activity, too. -/
inductive Activity (σ : Domain) : Type 1 where
  | task (task : Task σ)
  | program {κ ρ : Type} (calls : κ → Call) (program : Program σ (Task σ) κ ρ)
  | passes (name : String) (condition : Condition σ) (limit : Option Nat)
      (body : Factory σ (Task σ)) (iterations : Nat)
  | queue (policy : Policy) (origin : Option ContainerId) (handles : List (Handle (Task σ)))
  | waiting (container : ContainerId)
  | execute (container : ContainerId)
  | run (container : ContainerId)

/-- The program of a hook makes no calls. -/
def Hook.activity (hook : Hook σ α) : Activity σ := .program Empty.elim hook

def Call.activity : Call → Activity σ
  | .execute id => .execute id
  | .run id => .run id

namespace Activity

abbrev Result : Activity σ → Type
  | task _ => TaskResult
  | @program _ _ ρ _ _ => ρ
  | passes .. => TaskResult
  | queue .. => Drained σ
  | waiting _ => RunResult
  | execute _ => RunResult
  | run _ => RunResult

def exec (fuel : Nat) : (a : Activity σ) → Exec σ a.Result
  | task t => t.execute fuel
  | program calls p => p.exec fun request => (calls request).answer (Task.execute fuel) fuel
  | passes name condition limit body iterations =>
    iterate (Task.execute fuel) name condition limit body iterations fuel
  | queue policy origin handles => drain (Task.execute fuel) policy origin handles
  | waiting id => drainContainer (Task.execute fuel) id fuel
  | execute id => id.execute fuel
  | run id => id.run fuel

end Activity

/-- The congruence of the engine, for all activities at once. -/
theorem Exec.Compatible.activity {R : {α : Type} → Exec σ α → Exec σ α → Prop}
    (hR : Compatible R) (hat : ∀ id, CongruenceAt R id)
    (hrun : ∀ (id : ContainerId) (fuel fuel' : Nat)
      (execute execute' : Task σ → Exec σ TaskResult), fuel ≤ fuel' →
        (∀ t, R (execute t) (execute' t)) →
        R (runContainer execute fuel id) (runContainer execute' fuel' id))
    {fuel fuel' : Nat} (hfuel : fuel ≤ fuel') (a : Activity σ) :
    R (a.exec fuel) (a.exec fuel') := by
  have hanswer : ∀ (fuel fuel' : Nat) (execute execute' : Task σ → Exec σ TaskResult),
      fuel ≤ fuel' → (∀ t, R (execute t) (execute' t)) →
        ∀ request : Call, R (request.answer execute fuel) (request.answer execute' fuel') := by
    intro fuel fuel' execute execute' hle hexec request
    cases request with
    | execute id => exact hR.executeContainer (hat id) hexec hle
    | run id => exact hrun id _ _ _ _ hle hexec
  have hexec : ∀ t : Task σ, R (t.execute fuel) (t.execute fuel') := hR.execute hanswer hfuel
  cases a with
  | task t => exact hexec t
  | program calls p => exact hR.program (fun request => hanswer _ _ _ _ hfuel hexec _) p
  | passes name condition limit body iterations =>
    exact hR.iterate hexec name condition limit body iterations hfuel
  | queue policy origin handles =>
    refine hR.drain hexec policy (fun id name => ?_) handles
    cases origin with
    | none => exact hR.emit _ rfl
    | some container => exact (hat container).emit _ rfl
  | waiting id => exact hR.drainContainer (hat id) hexec hfuel
  | execute id => exact hR.executeContainer (hat id) hexec hfuel
  | run id => exact hrun id _ _ _ _ hfuel hexec

theorem Activity.exec_rising (a : Activity σ) : Rising (fun fuel => a.exec fuel) := by
  intro fuel fuel' hle
  exact Exec.congruence_extends.toCompatible.activity Exec.congruenceAt_extends
    (fun id _ _ _ _ hle hexec => Exec.congruence_extends.runContainer
      (Exec.congruence_extends.executeContainer (Exec.congruenceAt_extends id) hexec hle)) hle a

/-! ## Steps of activities -/

/-- The machine when a run of the container on its own context has begun. -/
def Machine.held (m : Machine σ) (id : ContainerId) : Machine σ :=
  { m with
    context := (m.store.contextOf id).content
    store := m.store.modifyContext (m.store.container id).context
      fun shared => { shared with locked := true } }

/-- The machine when that run has ended; `own` is the context that was at hand before. -/
def Machine.released (m : Machine σ) (id : ContainerId) (own : Context) : Machine σ :=
  { m with context := own, store := m.store.unlock id m.context }

namespace Activity

/-- From `m`, the activity gets to the one that begins at `m'`, which is a part of it or what is
left of it. What is pushed is the container whose run on its own context the step goes into. A
container that is not there has nothing to run. -/
inductive Enters : Activity σ → Machine σ → List ContainerId → Activity σ → Machine σ → Prop where
  | leaf {name : String} {body : Leaf σ TaskResult} {m : Machine σ} :
      Enters (.task (.leaf name body)) m [] (.program id body) (m.logged (.leafStarted name))
  | branch {condition : Condition σ} {thenQueue elseQueue : Factory σ (Task σ)} {holds : Bool}
      {queue : Queue (Task σ)} {m m₁ m' : Machine σ} :
      Exec.ask condition m = .finished holds m₁ →
      (if holds then thenQueue else elseQueue).build (m₁.logged (.branched holds)) =
        .finished queue m' →
      Enters (.task (.conditional condition thenQueue elseQueue)) m []
        (.queue .failFast none queue.handles) m'
  | loop {condition : Condition σ} {limit : Option Nat} {body : Factory σ (Task σ)}
      {m : Machine σ} :
      Enters (.task (.loop condition limit body)) m [] (.passes "loop" condition limit body 0) m
  | pass {name : String} {condition : Condition σ} {limit : Option Nat} {body : Factory σ (Task σ)}
      {iterations : Nat} {queue : Queue (Task σ)} {m m₁ m' : Machine σ} :
      Exec.ask condition m = .finished true m₁ → (∀ n ∈ limit, iterations < n) →
      body.build m₁ = .finished queue m' →
      Enters (.passes name condition limit body iterations) m []
        (.queue .failFast none queue.handles) m'
  | nextPass {name : String} {condition : Condition σ} {limit : Option Nat}
      {body : Factory σ (Task σ)} {iterations : Nat} {queue : Queue (Task σ)}
      {m m₁ m₂ m' : Machine σ} :
      Exec.ask condition m = .finished true m₁ → (∀ n ∈ limit, iterations < n) →
      body.build m₁ = .finished queue m₂ →
      Ends (fun fuel => drainWithin (Task.execute fuel) queue) m₂ (.ok ()) m' →
      Enters (.passes name condition limit body iterations) m []
        (.passes name condition limit body (iterations + 1)) m'
  | case {s : Switch σ (Task σ)} {key : σ.Key} {event : Event} {queue : Queue (Task σ)}
      {m m₁ : Machine σ} :
      Exec.ask s.selector m = .finished key m₁ → s.choose key = (event, some queue) →
      Enters (.task (.switch s)) m [] (.queue .failFast none queue.handles) (m₁.logged event)
  | gate {inner : Task σ} {hook : Hook σ Bool} {after : Option (Hook σ Unit)} {m : Machine σ} :
      Enters (.task (.aspect inner (some hook) after)) m [] hook.activity m
  | inside {inner : Task σ} {before : Option (Hook σ Bool)} {after : Option (Hook σ Unit)}
      {m m' : Machine σ} :
      Task.opens before m = .finished true m' →
      Enters (.task (.aspect inner before after)) m [] (.task inner) m'
  | coda {inner : Task σ} {before : Option (Hook σ Bool)} {hook : Hook σ Unit}
      {m m₁ m' : Machine σ} :
      Task.opens before m = .finished true m₁ →
      Ends (fun fuel => inner.execute fuel) m₁ (.ok ()) m' →
      Enters (.task (.aspect inner before (some hook))) m [] hook.activity m'
  | shared {inner : Task σ} {m : Machine σ} : Enters (.task (.shared inner)) m [] (.task inner) m
  | reference {r : Reference} {t : Task σ} {m : Machine σ} :
      m.store.object? r.id = some t → Enters (.task (.reference r)) m [] (.task t) m
  | request {κ ρ : Type} {calls : κ → Call} {p p' : Program σ (Task σ) κ ρ} {m m' : Machine σ} :
      Ends (fun fuel => p.advance fun request =>
        (calls request).answer (Task.execute fuel) fuel) m p' m' →
      Enters (.program calls p) m [] (.program calls p') m'
  | call {κ ρ : Type} {calls : κ → Call} {request : κ}
      {next : RunResult → Program σ (Task σ) κ ρ} {m : Machine σ} :
      Enters (.program calls (.call request next)) m [] (calls request).activity m
  | give {policy : Policy} {origin : Option ContainerId} {handle : Handle (Task σ)}
      {rest : List (Handle (Task σ))} {m : Machine σ} :
      Enters (.queue policy origin (handle :: rest)) m [] (.task handle.task)
        (m.logged (.taskStarted origin handle.id handle.task.name))
  | afterSuccess {policy : Policy} {origin : Option ContainerId} {handle : Handle (Task σ)}
      {rest : List (Handle (Task σ))} {m m' : Machine σ} :
      Ends (fun fuel => handle.task.execute fuel)
        (m.logged (.taskStarted origin handle.id handle.task.name)) (.ok ()) m' →
      Enters (.queue policy origin (handle :: rest)) m [] (.queue policy origin rest) m'
  | afterFailure {origin : Option ContainerId} {handle : Handle (Task σ)}
      {rest : List (Handle (Task σ))} {error : TaskError} {m m' : Machine σ} :
      Ends (fun fuel => handle.task.execute fuel)
        (m.logged (.taskStarted origin handle.id handle.task.name)) (.error error) m' →
      Enters (.queue .keepGoing origin (handle :: rest)) m [] (.queue .keepGoing origin rest)
        (m'.logged (.failureNoted (error.attributed handle.task.name)))
  | take {id : ContainerId} {queue : Queue (Task σ)} {rest : List (Queue (Task σ))}
      {m : Machine σ} :
      (m.store.container id).queues = queue :: rest →
      Enters (.waiting id) m [] (.queue (m.store.container id).policy (some id) queue.handles)
        (m.withQueues id rest)
  | drained {id : ContainerId} {queue : Queue (Task σ)} {rest : List (Queue (Task σ))}
      {d : Drained σ} {summary : Summary} {m m' : Machine σ} :
      (m.store.container id).queues = queue :: rest →
      Ends (fun fuel =>
        drain (Task.execute fuel) (m.store.container id).policy (some id) queue.handles)
        (m.withQueues id rest) d m' →
      d.result = .ok summary →
      Enters (.waiting id) m [] (.waiting id) m'
  | start {id : ContainerId} {m : Machine σ} :
      Enters (.execute id) m [] (.waiting id) (m.entered id)
  | lock {id : ContainerId} {m : Machine σ} :
      m.store.Has id → (m.store.contextOf id).locked = false →
      Enters (.run id) m [id] (.execute id) (m.held id)

/-- From `m`, the activity comes to the moment at which that other one begins at `m'`, with runs of
those containers in progress that have begun since. -/
inductive Visits : Activity σ → Machine σ → List ContainerId → Activity σ → Machine σ → Prop where
  | refl {a : Activity σ} {m : Machine σ} : Visits a m [] a m
  | step {a b c : Activity σ} {m m₁ m₂ : Machine σ} {pushed running : List ContainerId} :
      Enters a m pushed b m₁ → Visits b m₁ running c m₂ → Visits a m (running ++ pushed) c m₂

/-- The end of a program is one of its moments. -/
theorem visits_done {κ ρ : Type} {calls : κ → Call} {p : Program σ (Task σ) κ ρ}
    {m m' : Machine σ} {v : ρ} (h : Ends (fun fuel => (program calls p).exec fuel) m v m') :
    Visits (.program calls p) m [] (.program calls (.done v)) m' := by
  obtain ⟨fuel, h⟩ := h
  simp only [exec] at h
  induction p using Program.advance_induction
    (fun request => (calls request).answer (Task.execute fuel) fuel) generalizing m with
  | done result =>
    cases h
    exact .refl
  | step p ih =>
    rw [Program.exec_eq_advance] at h
    obtain ⟨p', m₁, hadvance, h⟩ := Exec.finished_of_bind h
    exact .step (.request ⟨fuel, hadvance⟩) (ih m p' m₁ hadvance h)

/-! ## What becomes of the store -/

section Moves

variable {P : Store σ → Store σ → Prop}

/-- It is enough to look at what a run does around the execution of its container. -/
theorem moves_of_runs (hP : Store.Progress P)
    (hrun : ∀ {execute : Task σ → Exec σ TaskResult} {fuel id},
      (executeContainer execute fuel id).Moves P → (runContainer execute fuel id).Moves P)
    (a : Activity σ) (fuel : Nat) : (a.exec fuel).Moves P :=
  @Exec.Compatible.activity _ _ hP.compatible hP.congruenceAt
    (fun id fuel _ execute _ _ hexec => hrun
      (@Exec.Compatible.executeContainer _ _ execute execute hP.compatible id (hP.congruenceAt id)
        hexec _ _ (Nat.le_refl fuel))) fuel fuel (Nat.le_refl fuel) a

theorem exec_moves (hP : Store.Progress P)
    (hlocks : ∀ (s : Store σ) (id : ContextId) (f : SharedContext → SharedContext),
      P s (s.modifyContext id f)) (a : Activity σ) (fuel : Nat) : (a.exec fuel).Moves P :=
  a.moves_of_runs hP (fun {execute fuel _} => @Exec.Congruence.runContainer _ _ execute execute
    (hP.congruence hlocks) fuel fuel _) fuel

/-- A step keeps to what the engine can make of a store, but for the lock that a run takes. -/
theorem Enters.moves (hP : Store.Progress P)
    (hexec : ∀ (a : Activity σ) fuel, (a.exec fuel).Moves P) {a b : Activity σ}
    {m m' : Machine σ} {pushed : List ContainerId} (h : Enters a m pushed b m') :
    pushed = [] ∧ P m.store m'.store ∨
      ∃ id, pushed = [id] ∧ b = .execute id ∧ m.store.Has id ∧
        (m.store.contextOf id).locked = false ∧ m' = m.held id := by
  have hask {α : Type} {question : Scope σ → Answer σ α} {v : α} {m m₁ : Machine σ}
      (h : Exec.ask question m = .finished v m₁) : P m.store m₁.store :=
    hP.compatible.ask question m v m₁ h
  have hbuild {factory : Factory σ (Task σ)} {queue : Queue (Task σ)} {m m₁ : Machine σ}
      (h : factory.build m = .finished queue m₁) : P m.store m₁.store :=
    hP.compatible.build factory m queue m₁ h
  have hopens {before : Option (Hook σ Bool)} {m m₁ : Machine σ}
      (h : Task.opens before m = .finished true m₁) : P m.store m₁.store := by
    cases before with
    | none => cases h; exact hP.refl _
    | some hook => exact hP.compatible.performHook hook m true m₁ h
  cases h with
  | leaf => exact .inl ⟨rfl, hP.refl _⟩
  | branch h hqueue =>
    have hqueue := hbuild hqueue
    exact .inl ⟨rfl, hP.trans (hask h) hqueue⟩
  | loop => exact .inl ⟨rfl, hP.refl _⟩
  | pass h _ hqueue => exact .inl ⟨rfl, hP.trans (hask h) (hbuild hqueue)⟩
  | @nextPass _ _ _ _ _ queue _ _ _ _ h _ hqueue hbody =>
    obtain ⟨fuel, hbody⟩ := hbody
    have hmoves := @Exec.Compatible.drainWithin _ _ (Task.execute fuel) (Task.execute fuel)
      hP.compatible (fun t => hexec (.task t) fuel) queue _ _ _ hbody
    exact .inl ⟨rfl, hP.trans (hP.trans (hask h) (hbuild hqueue)) hmoves⟩
  | case h _ =>
    have h := hask h
    exact .inl ⟨rfl, h⟩
  | gate => exact .inl ⟨rfl, hP.refl _⟩
  | inside h => exact .inl ⟨rfl, hopens h⟩
  | @coda inner _ _ _ _ _ h hinner =>
    obtain ⟨fuel, hinner⟩ := hinner
    exact .inl ⟨rfl, hP.trans (hopens h) (hexec (.task inner) fuel _ _ _ hinner)⟩
  | shared => exact .inl ⟨rfl, hP.refl _⟩
  | reference _ => exact .inl ⟨rfl, hP.refl _⟩
  | @request κ ρ calls p p' m m' hadvance =>
    obtain ⟨fuel, hadvance⟩ := hadvance
    have hcall (request : κ) :
        ((calls request).answer (Task.execute (σ := σ) fuel) fuel).Moves P := by
      cases calls request with
      | execute id => exact hexec (.execute id) fuel
      | run id => exact hexec (.run id) fuel
    exact .inl ⟨rfl, @Exec.Compatible.advance _ _ hP.compatible _ _ _
      (fun request => (calls request).answer (Task.execute fuel) fuel) hcall p _ _ _ hadvance⟩
  | call => exact .inl ⟨rfl, hP.refl _⟩
  | give => exact .inl ⟨rfl, hP.refl _⟩
  | @afterSuccess _ _ handle _ _ _ htask =>
    obtain ⟨fuel, htask⟩ := htask
    have hmoves := hexec (.task handle.task) fuel _ _ _ htask
    exact .inl ⟨rfl, hmoves⟩
  | @afterFailure _ handle _ _ _ _ htask =>
    obtain ⟨fuel, htask⟩ := htask
    have hmoves := hexec (.task handle.task) fuel _ _ _ htask
    exact .inl ⟨rfl, hmoves⟩
  | take _ => exact .inl ⟨rfl, hP.queues _ _ fun _ => _⟩
  | @drained id queue rest d _ _ _ _ hdrain _ =>
    obtain ⟨fuel, hdrain⟩ := hdrain
    have hmoves := hexec (.queue _ (some id) queue.handles) fuel _ d _ hdrain
    exact .inl ⟨rfl, hP.trans (hP.queues _ id fun _ => rest) hmoves⟩
  | start => exact .inl ⟨rfl, hP.refl _⟩
  | lock hid hfree => exact .inr ⟨_, rfl, rfl, hid, hfree, rfl⟩

theorem Visits.moves (hP : Store.Progress P)
    (hlocks : ∀ (s : Store σ) (id : ContextId) (f : SharedContext → SharedContext),
      P s (s.modifyContext id f)) {a b : Activity σ} {m m' : Machine σ} {running : List ContainerId}
    (h : Visits a m running b m') : P m.store m'.store := by
  induction h with
  | refl => exact hP.refl _
  | step hstep _ ih =>
    refine hP.trans ?_ ih
    rcases hstep.moves hP (exec_moves hP hlocks) with ⟨-, hmoves⟩ | ⟨id, -, -, -, -, rfl⟩
    · exact hmoves
    · exact hlocks _ _ _

end Moves

end Activity
end Workflow
