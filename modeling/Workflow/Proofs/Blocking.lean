import Workflow.Proofs.Moments

/-! # Workflow.Proofs.Blocking

Where a computation waits for ever. Only the run of a container on its own context waits, and it
does so where the lock of that context is held. What is around it waits with it.

* `Activity.Enters.blocks`: what is around waits.
* `Activity.exists_visits_of_blocked`: nothing else waits, by induction on the fuel.
* `Activity.blocks_iff`: both.
-/

namespace Workflow

variable {σ : Domain}

/-! ## The run that waits -/

theorem runContainer_of_locked {execute : Task σ → Exec σ TaskResult} {id : ContainerId}
    {m : Machine σ} (h : (m.store.contextOf id).locked = true) (fuel : Nat) :
    runContainer execute fuel id m = .blocked id m := by
  have hlock : Exec.lock id m = .blocked id m := by simp [Exec.lock, Store.lock?, h]
  unfold runContainer
  rw [Exec.bind_of_blocked hlock]

theorem runContainer_of_free {execute : Task σ → Exec σ TaskResult} {id : ContainerId}
    {m : Machine σ} (h : (m.store.contextOf id).locked = false) (fuel : Nat) :
    runContainer execute fuel id m =
      (executeContainer execute fuel id >>= fun r m' => .finished r (m'.released id m.context))
        (m.held id) := by
  unfold runContainer
  rw [Exec.bind_of_finished (Exec.lock_of_free h)]
  rfl

theorem executeContainer_of_blocked {execute : Task σ → Exec σ TaskResult} {fuel : Nat}
    {id c : ContainerId} {m m' : Machine σ} :
    executeContainer execute fuel id m = .blocked c m' ↔
      drainContainer execute id fuel (m.entered id) = .blocked c m' := by
  unfold executeContainer
  rw [Exec.look_bind, Exec.emit_bind]
  refine ⟨fun h => ?_, fun h => Exec.bind_of_blocked h _⟩
  rcases Exec.blocked_of_bind h with h | ⟨r, m₁, -, h⟩
  · exact h
  · cases r <;> cases h

theorem drainWithin_of_blocked {execute : Task σ → Exec σ TaskResult} {queue : Queue (Task σ)}
    {c : ContainerId} {m m' : Machine σ} :
    drainWithin execute queue m = .blocked c m' ↔
      drain execute .failFast none queue.handles m = .blocked c m' := by
  refine ⟨fun h => ?_, fun h => Exec.bind_of_blocked h _⟩
  rcases Exec.blocked_of_bind h with h | ⟨d, m₁, -, h⟩
  · exact h
  · cases h

theorem Store.has_of_queues {s : Store σ} {id : ContainerId} {queue : Queue (Task σ)}
    {rest : List (Queue (Task σ))} (h : (s.container id).queues = queue :: rest) : s.Has id := by
  refine Decidable.byContradiction fun hid => ?_
  have hle : s.containers.length ≤ id.index := Nat.le_of_not_lt hid
  simp [container, hle] at h

theorem Factory.exists_build (factory : Factory σ (Task σ)) (m : Machine σ) :
    ∃ queue m', factory.build m = .finished queue m' := by
  cases factory <;> exact ⟨_, _, rfl⟩

theorem Exec.Extends.blocked {α : Type} {x y : Exec σ α} (h : x.Extends y) {m m' : Machine σ}
    {c : ContainerId} (hx : x m = .blocked c m') : y m = .blocked c m' := by
  rw [h m (by rw [hx]; nofun), hx]

namespace Activity

/-- Begun at `m`, the activity waits for ever; then it is `m'` and the lock is that of `c`. -/
def Blocks (a : Activity σ) (m : Machine σ) (c : ContainerId) (m' : Machine σ) : Prop :=
  ∃ fuel, a.exec fuel m = .blocked c m'

theorem Blocks.eventually {a : Activity σ} {m m' : Machine σ} {c : ContainerId}
    (h : a.Blocks m c m') : ∃ enough, ∀ fuel, enough ≤ fuel → a.exec fuel m = .blocked c m' := by
  obtain ⟨enough, h⟩ := h
  exact ⟨enough, fun fuel hle => (a.exec_rising enough fuel hle).blocked h⟩

theorem blocks_run_of_locked {id : ContainerId} {m : Machine σ}
    (h : (m.store.contextOf id).locked = true) : (run id).Blocks m id m :=
  ⟨0, runContainer_of_locked h 0⟩

/-! ## What is around it -/

theorem exec_hook {α : Type} (hook : Hook σ α) (fuel : Nat) :
    hook.activity.exec fuel = Task.performHook hook := by
  have hcalls (call call' : Empty → Exec σ RunResult) : call = call' :=
    funext fun request => request.elim
  exact congrArg (Program.exec · hook) (hcalls _ _)

theorem blocks_call {request : Call} {m m' : Machine σ} {c : ContainerId} :
    (request.activity : Activity σ).Blocks m c m' ↔
      ∃ fuel, request.answer (Task.execute fuel) fuel m = .blocked c m' := by
  cases request <;> rfl

section Rest

variable {m m₁ m₂ m₃ m' : Machine σ} {c : ContainerId}

theorem blocks_pass {name : String} {condition : Condition σ} {limit : Option Nat}
    {body : Factory σ (Task σ)} {iterations : Nat} {queue : Queue (Task σ)}
    (hask : Exec.ask condition m = .finished true m₁) (hlimit : ∀ n ∈ limit, iterations < n)
    (hbuild : body.build m₁ = .finished queue m₂)
    (hb : (Activity.queue .failFast none queue.handles).Blocks m₂ c m') :
    (passes name condition limit body iterations).Blocks m c m' := by
  obtain ⟨enough, hb⟩ := hb.eventually
  refine ⟨enough + 1, ?_⟩
  simp only [exec]
  rw [iterate_of_pass _ _ hask hlimit hbuild]
  exact Exec.bind_of_blocked (drainWithin_of_blocked.2 (hb (enough + 1) (by omega))) _

theorem blocks_nextPass {name : String} {condition : Condition σ} {limit : Option Nat}
    {body : Factory σ (Task σ)} {iterations : Nat} {queue : Queue (Task σ)}
    (hask : Exec.ask condition m = .finished true m₁) (hlimit : ∀ n ∈ limit, iterations < n)
    (hbuild : body.build m₁ = .finished queue m₂)
    (hbody : Ends (fun fuel => drainWithin (Task.execute fuel) queue) m₂ (.ok ()) m₃)
    (hb : (passes name condition limit body (iterations + 1)).Blocks m₃ c m') :
    (passes name condition limit body iterations).Blocks m c m' := by
  obtain ⟨enough, hb⟩ := hb.eventually
  obtain ⟨enough', hbody⟩ := hbody.eventually (drainWithin_rising _)
  refine ⟨max enough enough' + 1, ?_⟩
  simp only [exec]
  rw [iterate_of_pass _ _ hask hlimit hbuild, Exec.bind_of_finished (hbody _ (by omega))]
  have hrest := hb (max enough enough') (by omega)
  exact (iterate_extends _ _ _ _ _ (by omega) (Nat.le_refl _)).blocked hrest

theorem blocks_coda {inner : Task σ} {before : Option (Hook σ Bool)} {hook : Hook σ Unit}
    (hopens : Task.opens before m = .finished true m₁)
    (hinner : Ends (fun fuel => inner.execute fuel) m₁ (.ok ()) m₂)
    (hb : hook.activity.Blocks m₂ c m') :
    (task (.aspect inner before (some hook))).Blocks m c m' := by
  obtain ⟨_, hb⟩ := hb
  obtain ⟨enough, hinner⟩ := hinner
  rw [exec_hook] at hb
  refine ⟨enough + 1, ?_⟩
  simp only [exec, Task.execute, Task.perform]
  rw [Exec.bind_of_finished hopens]
  simp only [if_true]
  rw [Exec.bind_of_finished hinner]
  exact Exec.bind_of_blocked hb _

theorem blocks_request {κ ρ : Type} {calls : κ → Call} {p p' : Program σ (Task σ) κ ρ}
    (hadvance : Ends (fun fuel => p.advance fun request =>
      (calls request).answer (Task.execute fuel) fuel) m p' m₁)
    (hb : (program calls p').Blocks m₁ c m') : (program calls p).Blocks m c m' := by
  obtain ⟨enough, hb⟩ := hb.eventually
  obtain ⟨enough', hadvance⟩ := hadvance.eventually (p.advance_rising calls)
  refine ⟨max enough enough', ?_⟩
  simp only [exec]
  rw [Program.exec_eq_advance, Exec.bind_of_finished (hadvance _ (by omega))]
  exact hb _ (by omega)

section Queue

variable {origin : Option ContainerId} {handle : Handle (Task σ)} {rest : List (Handle (Task σ))}

theorem blocks_afterSuccess {policy : Policy}
    (htask : Ends (fun fuel => handle.task.execute fuel)
      (m.logged (.taskStarted origin handle.id handle.task.name)) (.ok ()) m₁)
    (hb : (queue policy origin rest).Blocks m₁ c m') :
    (queue policy origin (handle :: rest)).Blocks m c m' := by
  obtain ⟨enough, hb⟩ := hb.eventually
  obtain ⟨enough', htask⟩ := htask.eventually (Task.execute_rising _)
  refine ⟨max enough enough', ?_⟩
  simp only [exec]
  rw [drain_of_success _ (htask _ (by omega))]
  exact Exec.bind_of_blocked (hb _ (by omega)) _

theorem blocks_afterFailure {error : TaskError}
    (htask : Ends (fun fuel => handle.task.execute fuel)
      (m.logged (.taskStarted origin handle.id handle.task.name)) (.error error) m₁)
    (hb : (queue .keepGoing origin rest).Blocks
      (m₁.logged (.failureNoted (error.attributed handle.task.name))) c m') :
    (queue .keepGoing origin (handle :: rest)).Blocks m c m' := by
  obtain ⟨enough, hb⟩ := hb.eventually
  obtain ⟨enough', htask⟩ := htask.eventually (Task.execute_rising _)
  refine ⟨max enough enough', ?_⟩
  simp only [exec]
  rw [drain_of_error_keepGoing (htask _ (by omega))]
  exact Exec.bind_of_blocked (hb _ (by omega)) _

end Queue

section Waiting

variable {id : ContainerId} {first : Queue (Task σ)} {rest : List (Queue (Task σ))}

theorem blocks_take (hqueues : (m.store.container id).queues = first :: rest)
    (hb : (queue (m.store.container id).policy (some id) first.handles).Blocks
      (m.withQueues id rest) c m') : (waiting id).Blocks m c m' := by
  obtain ⟨enough, hb⟩ := hb.eventually
  refine ⟨enough + 1, ?_⟩
  simp only [exec]
  rw [drainContainer_of_cons (Store.has_of_queues hqueues) hqueues]
  exact Exec.bind_of_blocked (hb _ (by omega)) _

theorem blocks_drained {d : Drained σ} {summary : Summary}
    (hqueues : (m.store.container id).queues = first :: rest)
    (hdrain : Ends (fun fuel =>
      drain (Task.execute fuel) (m.store.container id).policy (some id) first.handles)
      (m.withQueues id rest) d m₁)
    (hok : d.result = .ok summary) (hb : (waiting id).Blocks m₁ c m') :
    (waiting id).Blocks m c m' := by
  obtain ⟨enough, hb⟩ := hb.eventually
  obtain ⟨enough', hdrain⟩ := hdrain.eventually (drain_rising _ _ _)
  refine ⟨max enough enough' + 1, ?_⟩
  simp only [exec]
  rw [drainContainer_of_cons (Store.has_of_queues hqueues) hqueues, settle,
    Exec.bind_of_finished (hdrain _ (by omega))]
  simp only [hok]
  have hrest := hb (max enough enough') (by omega)
  exact Exec.bind_of_blocked
    ((drainContainer_extends _ (by omega) (Nat.le_refl _)).blocked hrest) _

end Waiting

end Rest

theorem Enters.blocks {a b : Activity σ} {m m₁ m' : Machine σ} {pushed : List ContainerId}
    {c : ContainerId} (h : Enters a m pushed b m₁) (hb : b.Blocks m₁ c m') : a.Blocks m c m' := by
  obtain ⟨enough, hb'⟩ := id hb
  cases h with
  | leaf | loop | shared => exact ⟨enough + 1, hb'⟩
  | branch hask hbuild =>
    refine ⟨enough + 1, ?_⟩
    simp only [exec, Task.execute, Task.perform]
    rw [Exec.bind_of_finished hask, Exec.emit_bind, Exec.bind_of_finished hbuild]
    exact drainWithin_of_blocked.2 hb'
  | pass hask hlimit hbuild => exact blocks_pass hask hlimit hbuild hb
  | nextPass hask hlimit hbuild hbody => exact blocks_nextPass hask hlimit hbuild hbody hb
  | case hask hchoose =>
    refine ⟨enough + 1, ?_⟩
    simp only [exec, Task.execute, Task.perform]
    rw [Exec.bind_of_finished hask]
    simp only [hchoose]
    rw [Exec.emit_bind]
    exact drainWithin_of_blocked.2 hb'
  | gate =>
    rw [exec_hook] at hb'
    exact ⟨enough + 1, Exec.bind_of_blocked hb' _⟩
  | inside hopens =>
    refine ⟨enough + 1, ?_⟩
    simp only [exec, Task.execute, Task.perform]
    rw [Exec.bind_of_finished hopens]
    exact Exec.bind_of_blocked hb' _
  | coda hopens hinner => exact blocks_coda hopens hinner hb
  | reference hobject =>
    refine ⟨enough + 1, ?_⟩
    simp only [exec, Task.execute, Task.perform]
    rw [Exec.look_bind, hobject]
    exact hb'
  | request hadvance => exact blocks_request hadvance hb
  | call =>
    obtain ⟨fuel, hb⟩ := blocks_call.1 hb
    exact ⟨fuel, Exec.bind_of_blocked hb _⟩
  | give =>
    refine ⟨enough, ?_⟩
    simp only [exec, drain]
    rw [Exec.emit_bind]
    exact Exec.bind_of_blocked hb' _
  | afterSuccess htask => exact blocks_afterSuccess htask hb
  | afterFailure htask => exact blocks_afterFailure htask hb
  | take hqueues => exact blocks_take hqueues hb
  | drained hqueues hdrain hok => exact blocks_drained hqueues hdrain hok hb
  | start => exact ⟨enough, executeContainer_of_blocked.2 hb'⟩
  | lock hid hfree =>
    refine ⟨enough, ?_⟩
    simp only [exec, ContainerId.run]
    rw [runContainer_of_free hfree]
    exact Exec.bind_of_blocked hb' _

theorem Visits.blocks {a b : Activity σ} {m m₁ m' : Machine σ} {running : List ContainerId}
    {c : ContainerId} (h : Visits a m running b m₁) (hb : b.Blocks m₁ c m') : a.Blocks m c m' := by
  induction h with
  | refl => exact hb
  | step hstep _ ih => exact hstep.blocks (ih hb)

/-! ## Nothing else -/

theorem drainContainer_ne_blocked {execute : Task σ → Exec σ TaskResult} {fuel : Nat}
    {id c : ContainerId} {m m' : Machine σ} (hid : ¬ m.store.Has id) :
    drainContainer execute id fuel m ≠ .blocked c m' := by
  have hqueues : (m.store.container id).queues = [] := by
    cases hqueues : (m.store.container id).queues with
    | nil => rfl
    | cons queue rest => exact absurd (Store.has_of_queues hqueues) hid
  cases fuel with
  | zero => nofun
  | succ fuel =>
    rw [drainContainer_of_nil hqueues]
    nofun

/-- Begun at `m`, the activity comes at `m'` to a run of `c` that finds the lock held. -/
def Waits (a : Activity σ) (m : Machine σ) (c : ContainerId) (m' : Machine σ) : Prop :=
  ∃ running, Visits a m running (.run c) m' ∧ (m'.store.contextOf c).locked = true

theorem Waits.of_enters {a b : Activity σ} {m m₁ m' : Machine σ} {pushed : List ContainerId}
    {c : ContainerId} (hb : b.Waits m₁ c m') (h : Enters a m pushed b m₁) : a.Waits m c m' := by
  obtain ⟨running, hvisits, hlocked⟩ := hb
  exact ⟨running ++ pushed, .step h hvisits, hlocked⟩

section Waits

variable {k : Nat} {c : ContainerId} {m m' : Machine σ}

section Step

variable (hexec : ∀ (t : Task σ) (m : Machine σ), t.execute k m = .blocked c m' →
  Waits (.task t) m c m')

include hexec

theorem waits_queue {policy : Policy} {origin : Option ContainerId}
    {handles : List (Handle (Task σ))}
    (h : drain (Task.execute k) policy origin handles m = .blocked c m') :
    Waits (.queue policy origin handles) m c m' := by
  induction handles generalizing m with
  | nil => cases h
  | cons handle rest ih =>
    simp only [drain] at h
    rw [Exec.emit_bind] at h
    rcases Exec.blocked_of_bind h with h | ⟨result, m₁, htask, h⟩
    · exact (hexec _ _ h).of_enters .give
    · cases result with
      | ok =>
        rcases Exec.blocked_of_bind h with h | ⟨d, m₂, -, h⟩
        · exact (ih h).of_enters (.afterSuccess ⟨k, htask⟩)
        · cases h
      | error error =>
        cases policy with
        | failFast => cases h
        | keepGoing =>
          simp only at h
          rw [Exec.emit_bind] at h
          rcases Exec.blocked_of_bind h with h | ⟨d, m₂, -, h⟩
          · exact (ih h).of_enters (.afterFailure ⟨k, htask⟩)
          · cases h

theorem waits_passes {name : String} {condition : Condition σ} {limit : Option Nat}
    {body : Factory σ (Task σ)} {iterations fuel : Nat}
    (h : iterate (Task.execute k) name condition limit body iterations fuel m = .blocked c m') :
    Waits (.passes name condition limit body iterations) m c m' := by
  induction fuel generalizing m iterations with
  | zero => cases h
  | succ fuel ih =>
    simp only [iterate] at h
    rcases Exec.blocked_of_bind h with h | ⟨holds, m₁, hask, h⟩
    · cases h
    cases holds with
    | false => cases h
    | true =>
      simp only [if_true] at h
      cases hlimit : limit.filter (· ≤ iterations) with
      | some n =>
        simp only [hlimit] at h
        cases h
      | none =>
        simp only [hlimit] at h
        have hbelow : ∀ n ∈ limit, iterations < n := by simpa using hlimit
        rcases Exec.blocked_of_bind h with h | ⟨queue, m₂, hbuild, h⟩
        · cases body <;> cases h
        rcases Exec.blocked_of_bind h with h | ⟨result, m₃, hbody, h⟩
        · exact (waits_queue hexec (drainWithin_of_blocked.1 h)).of_enters
            (.pass hask hbelow hbuild)
        cases result with
        | ok => exact (ih h).of_enters (.nextPass hask hbelow hbuild ⟨k, hbody⟩)
        | error error => cases h

theorem waits_waiting {id : ContainerId} {fuel : Nat}
    (h : drainContainer (Task.execute k) id fuel m = .blocked c m') :
    Waits (.waiting id) m c m' := by
  induction fuel generalizing m with
  | zero => cases h
  | succ fuel ih =>
    cases hqueues : (m.store.container id).queues with
    | nil =>
      rw [drainContainer_of_nil hqueues] at h
      cases h
    | cons queue rest =>
      rw [drainContainer_of_cons (Store.has_of_queues hqueues) hqueues, settle] at h
      rcases Exec.blocked_of_bind h with h | ⟨d, m₁, hdrain, h⟩
      · exact (waits_queue hexec h).of_enters (.take hqueues)
      cases hresult : d.result with
      | ok summary =>
        simp only [hresult] at h
        rcases Exec.blocked_of_bind h with h | ⟨r, m₂, -, h⟩
        · exact (ih h).of_enters (.drained hqueues ⟨k, hdrain⟩ hresult)
        · cases h
      | error failure =>
        simp only [hresult] at h
        cases h

theorem waits_execute {id : ContainerId} {fuel : Nat}
    (h : executeContainer (Task.execute k) fuel id m = .blocked c m') :
    Waits (.execute id) m c m' :=
  (waits_waiting hexec (executeContainer_of_blocked.1 h)).of_enters .start

theorem waits_run {id : ContainerId} {fuel : Nat}
    (h : runContainer (Task.execute k) fuel id m = .blocked c m') :
    Waits (.run id) m c m' := by
  cases hlocked : (m.store.contextOf id).locked with
  | true =>
    rw [runContainer_of_locked hlocked] at h
    cases h
    exact ⟨[], .refl, hlocked⟩
  | false =>
    rw [runContainer_of_free hlocked] at h
    rcases Exec.blocked_of_bind h with h | ⟨r, m₁, -, h⟩
    · by_cases hid : m.store.Has id
      · exact (waits_execute hexec h).of_enters (.lock hid hlocked)
      · exact absurd (executeContainer_of_blocked.1 h) (drainContainer_ne_blocked hid)
    · cases h

theorem waits_call {request : Call} {fuel : Nat}
    (h : request.answer (Task.execute k) fuel m = .blocked c m') :
    Waits request.activity m c m' := by
  cases request with
  | execute id => exact waits_execute hexec h
  | run id => exact waits_run hexec h

theorem waits_program {κ ρ : Type} {calls : κ → Call} {p : Program σ (Task σ) κ ρ}
    (h : p.exec (fun request => (calls request).answer (Task.execute k) k) m = .blocked c m') :
    Waits (.program calls p) m c m' := by
  induction p using Program.advance_induction
    (fun request => (calls request).answer (Task.execute k) k) generalizing m with
  | done result => cases h
  | step p ih =>
    rw [Program.exec_eq_advance] at h
    rcases Exec.blocked_of_bind h with h | ⟨p', m₁, hadvance, h⟩
    · obtain ⟨request, next, rfl, hcall⟩ := Program.blocked_of_advance h
      exact (waits_call hexec hcall).of_enters .call
    · exact (ih m p' m₁ hadvance h).of_enters (.request ⟨k, hadvance⟩)

end Step

theorem waits_hook {α : Type} {hook : Hook σ α} (h : Task.performHook hook m = .blocked c m') :
    Waits hook.activity m c m' := by
  rw [← exec_hook hook 0] at h
  refine waits_program (k := 0) (fun _ _ htask => ?_) h
  cases htask

theorem waits_aspect (hexec : ∀ (t : Task σ) (m : Machine σ), t.execute k m = .blocked c m' →
      Waits (.task t) m c m') {inner : Task σ} {before : Option (Hook σ Bool)}
    {after : Option (Hook σ Unit)}
    (h : (Task.aspect inner before after).perform (Task.execute k) k m = .blocked c m') :
    Waits (.task (.aspect inner before after)) m c m' := by
  simp only [Task.perform] at h
  rcases Exec.blocked_of_bind h with h | ⟨isOpen, m₁, hopens, h⟩
  · cases before with
    | none => cases h
    | some hook => exact (waits_hook h).of_enters .gate
  cases isOpen with
  | false => cases h
  | true =>
    simp only [if_true] at h
    rcases Exec.blocked_of_bind h with h | ⟨result, m₂, hinner, h⟩
    · exact (hexec _ _ h).of_enters (.inside hopens)
    cases result with
    | error error => cases h
    | ok =>
      cases after with
      | none => cases h
      | some hook =>
        rcases Exec.blocked_of_bind h with h | ⟨u, m₃, -, h⟩
        · exact (waits_hook h).of_enters (.coda hopens ⟨k, hinner⟩)
        · cases h

theorem waits_task {t : Task σ} (h : t.execute k m = .blocked c m') : Waits (.task t) m c m' := by
  induction k generalizing t m with
  | zero => cases h
  | succ k ih =>
    have hexec : ∀ (t : Task σ) (m : Machine σ), t.execute k m = .blocked c m' →
      Waits (.task t) m c m' := fun _ _ => ih
    simp only [Task.execute] at h
    cases t with
    | leaf name body => exact (waits_program hexec h).of_enters .leaf
    | conditional condition thenQueue elseQueue =>
      simp only [Task.perform] at h
      rcases Exec.blocked_of_bind h with h | ⟨holds, m₁, hask, h⟩
      · cases h
      obtain ⟨queue, m₂, hbuild⟩ :=
        (if holds then thenQueue else elseQueue).exists_build (m₁.logged (.branched holds))
      rw [Exec.emit_bind, Exec.bind_of_finished hbuild] at h
      exact (waits_queue hexec (drainWithin_of_blocked.1 h)).of_enters (.branch hask hbuild)
    | loop condition limit body => exact (waits_passes hexec h).of_enters .loop
    | switch s =>
      simp only [Task.perform] at h
      rcases Exec.blocked_of_bind h with h | ⟨key, m₁, hask, h⟩
      · cases h
      rcases hchoice : s.choose key with ⟨event, queue?⟩
      simp only [hchoice] at h
      rw [Exec.emit_bind] at h
      cases queue? with
      | none => cases h
      | some queue =>
        exact (waits_queue hexec (drainWithin_of_blocked.1 h)).of_enters (.case hask hchoice)
    | aspect inner before after => exact waits_aspect hexec h
    | shared inner => exact (ih h).of_enters .shared
    | reference r =>
      simp only [Task.perform] at h
      rw [Exec.look_bind] at h
      cases hobject : m.store.object? r.id with
      | none =>
        rw [hobject] at h
        cases h
      | some t =>
        rw [hobject] at h
        exact (ih h).of_enters (.reference hobject)

end Waits

theorem exists_visits_of_blocked {a : Activity σ} {m m' : Machine σ} {c : ContainerId}
    (h : a.Blocks m c m') : a.Waits m c m' := by
  obtain ⟨fuel, h⟩ := h
  have hexec : ∀ (t : Task σ) (m : Machine σ), t.execute fuel m = .blocked c m' →
    Waits (.task t) m c m' := fun _ _ => waits_task
  cases a with
  | task t => exact waits_task h
  | program calls p => exact waits_program hexec h
  | passes name condition limit body iterations => exact waits_passes hexec h
  | queue policy origin handles => exact waits_queue hexec h
  | waiting id => exact waits_waiting hexec h
  | execute id => exact waits_execute hexec h
  | run id => exact waits_run hexec h

/-- An activity waits for ever if and only if it comes to a run that finds the lock held. -/
theorem blocks_iff {a : Activity σ} {m m' : Machine σ} {c : ContainerId} :
    a.Blocks m c m' ↔ ∃ running, Visits a m running (.run c) m' ∧
      (m'.store.contextOf c).locked = true := by
  refine ⟨exists_visits_of_blocked, ?_⟩
  rintro ⟨running, hvisits, hlocked⟩
  exact hvisits.blocks (blocks_run_of_locked hlocked)

end Activity
end Workflow
