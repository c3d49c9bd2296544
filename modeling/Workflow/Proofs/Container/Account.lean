import Workflow.Proofs.Attribution
import Workflow.Proofs.Container.Settle

/-! # Workflow.Proofs.Container.Account

The log of a run is an account of it. A `Stint` is what becomes of one task that the run gives out
itself, and what is logged meanwhile. The stints follow one another without a gap, and what the run
adds to the log is what they come to, one after the other, between a first and a last record of its
own.

* `Works`: the run goes from task to task.
* `Works.log_eq`: so the log is that of the stints.
* `exists_works_settle`, `exists_works_drainContainer`: every run goes so, and its result is the
  tally of its stints.
-/

namespace Workflow

variable {σ : Domain} {id : ContainerId} {policy : Policy}

/-- What becomes of a task that a run gives out. -/
structure Stint (σ : Domain) where
  handle : Handle (Task σ)
  /-- The task has been given out. -/
  start : Machine σ
  result : TaskResult
  finish : Machine σ
  /-- What happens during the execution of the task. -/
  events : List Event

namespace Stint

def name (s : Stint σ) : String := s.handle.task.name

def succeeded (s : Stint σ) : Bool := s.result.isOk

def failure? (s : Stint σ) : Option ExecutionError :=
  match s.result with
  | .ok () => none
  | .error error => some (error.attributed s.name)

/-- The failure that the run notes behind the stint. -/
def noted (policy : Policy) (s : Stint σ) : List ExecutionError :=
  match policy with
  | .failFast => []
  | .keepGoing => s.failure?.toList

/-- The task of the handle is given out by the run from `m`, and executed. -/
structure Executes (id : ContainerId) (handle : Handle (Task σ)) (m : Machine σ) (s : Stint σ) :
    Prop where
  handle_eq : s.handle = handle
  start_eq : s.start = m.logged (.taskStarted (some id) handle.id handle.task.name)
  ends : handle.task.Ends s.start s.result s.finish
  log_eq : s.finish.log = s.start.log ++ s.events

/-- The machine when the run goes on. -/
def after (policy : Policy) (s : Stint σ) : Machine σ :=
  { s.finish with log := s.finish.log ++ (s.noted policy).map Event.failureNoted }

/-- All that the run has in the log of the stint. -/
def account (id : ContainerId) (policy : Policy) (s : Stint σ) : List Event :=
  .taskStarted (some id) s.handle.id s.name ::
    (s.events ++ (s.noted policy).map Event.failureNoted)

theorem noted_failFast (s : Stint σ) : s.noted .failFast = [] := rfl

theorem failure?_of_ok {s : Stint σ} (h : s.result = .ok ()) : s.failure? = none := by
  simp [failure?, h]

theorem failure?_of_error {s : Stint σ} {error : TaskError} (h : s.result = .error error) :
    s.failure? = some (error.attributed s.name) := by
  simp [failure?, h]

theorem noted_of_ok {s : Stint σ} (h : s.result = .ok ()) : s.noted policy = [] := by
  cases policy <;> simp [noted, failure?_of_ok h]

theorem after_of_noted_nil {s : Stint σ} (h : s.noted policy = []) : s.after policy = s.finish := by
  simp [after, h]

end Stint

/-- From `m`, with tasks of a queue in hand, the run gives out the tasks of the stints, one after
the other. Each is the first in hand, and with none in hand the next queue is taken out. The run is
then at `m'` with `left` in hand. -/
inductive Works (id : ContainerId) (policy : Policy) : List (Handle (Task σ)) → Machine σ →
    List (Stint σ) → List (Handle (Task σ)) → Machine σ → Prop where
  | nil {hand : List (Handle (Task σ))} {m : Machine σ} : Works id policy hand m [] hand m
  | queue {queue : Queue (Task σ)} {rest : List (Queue (Task σ))} {m m' : Machine σ}
      {stints : List (Stint σ)} {left : List (Handle (Task σ))} :
      (m.store.container id).queues = queue :: rest →
      Works id policy queue.handles (m.withQueues id rest) stints left m' →
      Works id policy [] m stints left m'
  | task {handle : Handle (Task σ)} {rest left : List (Handle (Task σ))} {m m' : Machine σ}
      {s : Stint σ} {stints : List (Stint σ)} :
      s.Executes id handle m →
      Works id policy rest (s.after policy) stints left m' →
      Works id policy (handle :: rest) m (s :: stints) left m'

theorem Works.log_eq {hand left : List (Handle (Task σ))} {m m' : Machine σ}
    {stints : List (Stint σ)} (h : Works id policy hand m stints left m') :
    m'.log = m.log ++ stints.flatMap (Stint.account id policy) := by
  induction h with
  | nil => simp
  | queue _ _ ih => exact ih
  | @task handle rest left m m' s stints hs _ ih =>
    have hstart : s.start.log =
        m.log ++ [Event.taskStarted (some id) s.handle.id s.name] := by
      rw [hs.start_eq, Stint.name, hs.handle_eq]
      simp [Machine.logged]
    rw [ih, Stint.after, hs.log_eq, hstart, Log.append_append, Log.append_append,
      Log.append_append]
    simp [Stint.account]

/-! ## What the stints come to -/

/-- The tasks that succeeded are counted, and the failures of the others stand in order. -/
def tally (stints : List (Stint σ)) : Summary :=
  ⟨stints.countP Stint.succeeded, stints.filterMap Stint.failure?⟩

theorem tally_cons_of_success {s : Stint σ} (h : s.result = .ok ()) (stints : List (Stint σ)) :
    tally (s :: stints) = .ofSuccess ++ tally stints := by
  have hsucceeded : s.succeeded = true := by simp [Stint.succeeded, h, Except.isOk, Except.toBool]
  simp [tally, hsucceeded, Stint.failure?_of_ok h, Summary.append_def, Summary.ofSuccess, Nat.add_comm]

theorem tally_cons_of_error {s : Stint σ} {error : TaskError} (h : s.result = .error error)
    (stints : List (Stint σ)) :
    tally (s :: stints) = .ofFailure (error.attributed s.name) ++ tally stints := by
  have hfailed : s.succeeded = false := by simp [Stint.succeeded, h, Except.isOk, Except.toBool]
  simp [tally, hfailed, Stint.failure?_of_error h, Summary.append_def, Summary.ofFailure]

/-- A run that does not fail answers with the tally of its stints, and has noted the failures that
are in it, each of them once, and no others. A run that fails has noted none: it has stopped at the
first failure. -/
def Settles (policy : Policy) (stints : List (Stint σ)) : RunResult → Prop
  | .ok summary => summary = tally stints ∧ stints.flatMap (Stint.noted policy) = summary.failures
  | .error failure => stints.flatMap (Stint.noted policy) = [] ∧ policy = .failFast ∧
      ∃ before last, stints = before ++ [last] ∧ last.failure? = some failure ∧
        ∀ s ∈ before, s.failure? = none

namespace Settles

variable {s : Stint σ} {stints : List (Stint σ)} {r : RunResult}

theorem nil : Settles policy ([] : List (Stint σ)) (.ok .empty) := ⟨rfl, rfl⟩

theorem success (hs : s.result = .ok ()) (h : Settles policy stints r) :
    Settles policy (s :: stints) (r.map (.ofSuccess ++ ·)) := by
  cases r with
  | ok summary =>
    obtain ⟨rfl, hnoted⟩ := h
    refine ⟨(tally_cons_of_success hs stints).symm, ?_⟩
    rw [List.flatMap_cons, Stint.noted_of_ok hs, List.nil_append, hnoted]
    rfl
  | error failure =>
    obtain ⟨hquiet, hpolicy, before, last, rfl, hlast, hbefore⟩ := h
    refine ⟨?_, hpolicy, s :: before, last, rfl, hlast,
      List.forall_mem_cons.2 ⟨Stint.failure?_of_ok hs, hbefore⟩⟩
    rw [List.flatMap_cons, Stint.noted_of_ok hs, List.nil_append, hquiet]

theorem skip {error : TaskError} (hs : s.result = .error error) (h : Settles .keepGoing stints r) :
    Settles .keepGoing (s :: stints) (r.map (.ofFailure (error.attributed s.name) ++ ·)) := by
  cases r with
  | ok summary =>
    obtain ⟨rfl, hnoted⟩ := h
    refine ⟨(tally_cons_of_error hs stints).symm, ?_⟩
    rw [List.flatMap_cons, hnoted]
    simp [Stint.noted, Stint.failure?_of_error hs, Summary.append_def, Summary.ofFailure]
  | error failure => exact absurd h.2.1 nofun

theorem stop {error : TaskError} (hs : s.result = .error error) :
    Settles .failFast [s] (.error (error.attributed s.name)) :=
  ⟨rfl, rfl, [], s, rfl, Stint.failure?_of_error hs, nofun⟩

end Settles

/-! ## Every run -/

/-- Wherever `x` comes to its end, it has worked through stints that settle its result. What is left
in hand goes back. -/
def IsWork (id : ContainerId) (policy : Policy) (hand : List (Handle (Task σ)))
    (x : Exec σ RunResult) : Prop :=
  ∀ (m : Machine σ) (r : RunResult) (m' : Machine σ), m.store.Has id →
    (m.store.container id).policy = policy → x m = .finished r m' →
    ∃ stints left m₁, Works id policy hand m stints left m₁ ∧ Settles policy stints r ∧
      m' = { m₁ with store := m₁.store.returnQueue id ⟨left⟩ }

theorem exists_works_settle {k fuel : Nat}
    (hwaiting : IsWork id policy [] (drainContainer (Task.execute (σ := σ) k) id fuel))
    (hand : List (Handle (Task σ))) :
    IsWork id policy hand (settle (Task.execute k) id policy hand fuel) := by
  induction hand with
  | nil =>
    rw [settle_nil]
    exact hwaiting
  | cons handle rest ih =>
    intro m r m' hid hpolicy h
    obtain ⟨result, m₁, hx⟩ := execute_of_settle h
    obtain ⟨events, hg⟩ := Task.execute_grows k _ _ _ _ hx
    -- What the first task in hand comes to is the first stint.
    let s : Stint σ :=
      ⟨handle, m.logged (.taskStarted (some id) handle.id handle.task.name), result, m₁, events⟩
    have hs : s.Executes id handle m := ⟨rfl, rfl, ⟨k, hx⟩, hg.log⟩
    have hid₁ : m₁.store.Has id := hg.store.has hid
    have hpolicy₁ : (m₁.store.container id).policy = policy := (hg.store.policy hid).trans hpolicy
    cases result with
    | ok =>
      rw [settle_of_success hx] at h
      obtain ⟨r', m₂, hrest, h⟩ := Exec.finished_of_bind h
      cases h
      obtain ⟨stints, left, m₃, hworks, hsettles, hm'⟩ := ih m₁ r' m' hid₁ hpolicy₁ hrest
      have hafter : s.after policy = m₁ :=
        Stint.after_of_noted_nil (by cases policy <;> rfl)
      rw [← hafter] at hworks
      exact ⟨s :: stints, left, m₃, .task hs hworks, hsettles.success rfl, hm'⟩
    | error error =>
      cases policy with
      | failFast =>
        rw [settle_of_error_failFast hx] at h
        cases h
        have hafter : s.after .failFast = m₁ := Stint.after_of_noted_nil s.noted_failFast
        have hworks : Works id .failFast rest (s.after .failFast) [] rest m₁ := by
          rw [hafter]
          exact .nil
        exact ⟨[s], rest, m₁, .task hs hworks, .stop rfl, rfl⟩
      | keepGoing =>
        rw [settle_of_error_keepGoing hx] at h
        obtain ⟨r', m₂, hrest, h⟩ := Exec.finished_of_bind h
        cases h
        have hafter : s.after .keepGoing =
            m₁.logged (.failureNoted (error.attributed handle.task.name)) := by
          simp [Stint.after, Stint.noted, Stint.failure?, Stint.name, s, Machine.logged]
        obtain ⟨stints, left, m₃, hworks, hsettles, hm'⟩ :=
          ih (m₁.logged _) r' m' hid₁ hpolicy₁ hrest
        rw [← hafter] at hworks
        exact ⟨s :: stints, left, m₃, .task hs hworks, hsettles.skip rfl, hm'⟩

theorem exists_works_drainContainer (k fuel : Nat) :
    IsWork id policy [] (drainContainer (Task.execute (σ := σ) k) id fuel) := by
  induction fuel with
  | zero => intro m r m' _ _ h; cases h
  | succ fuel ih =>
    intro m r m' hid hpolicy h
    cases hqueues : (m.store.container id).queues with
    | nil =>
      rw [drainContainer_of_nil hqueues] at h
      cases h
      exact ⟨[], [], m, .nil, .nil, rfl⟩
    | cons queue rest =>
      rw [drainContainer_of_cons hid hqueues, hpolicy] at h
      have hg := m.withQueues_grows id rest
      obtain ⟨stints, left, m₁, hworks, hsettles, hm'⟩ :=
        exists_works_settle ih queue.handles _ r m' (hg.store.has hid)
          ((hg.store.policy hid).trans hpolicy) h
      exact ⟨stints, left, m₁, .queue hqueues hworks, hsettles, hm'⟩

/-! ## The log -/

theorem Log.records_append (log : Log) (events : List Event) :
    Log.records (log ++ events) = log.records ++ events.filterMap Event.record? := by
  simp [Log.records]

/-- What an observer is shown of a stint: the name of the task, what is logged while the task is
executed, and its failure if the run notes one. -/
def Stint.records (policy : Policy) (s : Stint σ) : List Record :=
  ⟨.debug, "Executing task '" ++ s.name ++ "'"⟩ ::
    (s.events.filterMap Event.record? ++ (s.noted policy).map fun failure =>
      ⟨.error, failure.message ++ "; continuing with the next task"⟩)

/-- What an observer is shown of the end of a run. -/
def closing (container : String) : RunResult → List Record
  | .ok summary =>
    [⟨.info, "Container '" ++ container ++ "': run finished, " ++ toString summary.executed ++
      " task(s) executed, " ++ toString summary.failures.length ++ " failure(s)"⟩]
  | .error _ => []

theorem Stint.filterMap_account (s : Stint σ) :
    (s.account id policy).filterMap Event.record? = s.records policy := by
  simp [account, records, List.filterMap_append, Event.record?, Function.comp_def]

theorem filterMap_conclusion (name : String) (r : RunResult) :
    (conclusion id name r).filterMap Event.record? = closing name r := by
  cases r <;> rfl

theorem Works.records_eq {hand left : List (Handle (Task σ))} {m m' : Machine σ}
    {stints : List (Stint σ)} (h : Works id policy hand m stints left m') :
    m'.log.records = m.log.records ++ stints.flatMap (Stint.records policy) := by
  rw [h.log_eq, Log.records_append, List.filterMap_flatMap]
  simp only [Stint.filterMap_account]

/-- The records of a run that comes to its end. First the run says that it starts. Then, for each
task that it gives out itself, in order, come the name of the task, whatever is logged while the
task is executed, and, if the task fails and the run goes on, the failure. Last, if the run does not
fail, come the two numbers of its summary. The summary counts the tasks that succeeded and has the
failures that were noted, and a run that fails has noted none and ends with the failure. -/
theorem log_is_account_of_run {m m' : Machine σ} {r : RunResult} (hid : m.store.Has id)
    (h : Ends (fun fuel => id.execute fuel) m r m') :
    let name := (m.store.container id).name
    let policy := (m.store.container id).policy
    ∃ (stints : List (Stint σ)) (left : List (Handle (Task σ))) (m₁ : Machine σ),
      Works id policy [] (m.entered id) stints left m₁ ∧
      m'.toScope = m₁.toScope ∧ m'.store = m₁.store.returnQueue id ⟨left⟩ ∧
      m'.log.records = m.log.records ++
        (⟨.info, "Container '" ++ name ++ "': starting run"⟩ ::
          stints.flatMap (Stint.records policy)) ++ closing name r ∧
      Settles policy stints r := by
  intro name policy
  obtain ⟨fuel, h⟩ := h
  obtain ⟨m₂, hdrain, rfl⟩ := drained_of_executeContainer h
  obtain ⟨stints, left, m₁, hworks, hsettles, rfl⟩ :=
    exists_works_drainContainer fuel fuel (m.entered id) r m₂ hid rfl hdrain
  refine ⟨stints, left, m₁, hworks, rfl, rfl, ?_, hsettles⟩
  have hentered : (m.entered id).log.records =
      m.log.records ++ [⟨.info, "Container '" ++ name ++ "': starting run"⟩] := by
    simp [Machine.entered, Machine.logged, Log.records, Event.record?, name]
  have hrecords := hworks.records_eq
  rw [hentered, List.append_assoc, List.singleton_append] at hrecords
  rw [Machine.concluded, Log.records_append, filterMap_conclusion, hrecords]
  rfl

def noisyQueues : List (Queue (Task Unit)) :=
  [⟨[⟨⟨0⟩, reentering⟩, ⟨⟨1⟩, breaking⟩]⟩, ⟨[⟨⟨2⟩, breaking⟩]⟩]

/-- The run within the run notes a failure and finishes before the first task does. -/
def noisyEvents : List Event :=
  let failure := ExecutionError.taskFailed "breaking" (.plain "broken")
  [.runStarted ⟨0⟩ "yard", .taskStarted (some ⟨0⟩) ⟨0⟩ "reentering", .leafStarted "reentering",
    .runStarted ⟨0⟩ "yard"] ++ breakingEvents ⟨2⟩ ++
    [.failureNoted failure, .runFinished ⟨0⟩ "yard" ⟨0, [failure]⟩] ++ breakingEvents ⟨1⟩ ++
    [.failureNoted failure, .runFinished ⟨0⟩ "yard" ⟨1, [failure]⟩]

theorem execute_noisy : ContainerId.execute 8 ⟨0⟩ (yard .keepGoing noisyQueues []) =
    .finished (.ok ⟨1, [.taskFailed "breaking" (.plain "broken")]⟩)
      (yard .keepGoing [] noisyEvents) := by
  cbv

theorem yard_log_is_account_of_run :
    let m := yard .keepGoing noisyQueues []
    let r : RunResult := .ok ⟨1, [.taskFailed "breaking" (.plain "broken")]⟩
    m.store.Has ⟨0⟩ ∧
      Ends (fun fuel => ContainerId.execute fuel ⟨0⟩) m r (yard .keepGoing [] noisyEvents) ∧
      ∃ (stints : List (Stint Unit)) (left : List (Handle (Task Unit))) (m₁ : Machine Unit),
        Works ⟨0⟩ .keepGoing [] (m.entered ⟨0⟩) stints left m₁ ∧
        noisyEvents.filterMap Event.record? = ⟨.info, "Container 'yard': starting run"⟩ ::
          stints.flatMap (Stint.records .keepGoing) ++
          [⟨.info, "Container 'yard': run finished, 1 task(s) executed, 1 failure(s)"⟩] ∧
        Settles .keepGoing stints r := by
  intro m r
  have hid : m.store.Has ⟨0⟩ := by simp [m, yard, Store.Has]
  have hends : Ends (fun fuel => ContainerId.execute fuel ⟨0⟩) m r
      (yard .keepGoing [] noisyEvents) := ⟨8, execute_noisy⟩
  obtain ⟨stints, left, m₁, hworks, _, _, hrecords, hsettles⟩ := log_is_account_of_run hid hends
  exact ⟨hid, hends, stints, left, m₁, hworks, hrecords, hsettles⟩

end Workflow
