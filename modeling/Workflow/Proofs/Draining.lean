import Workflow.Proofs.Container.Account
import Workflow.Proofs.Unread

/-! # Workflow.Proofs.Draining

Draining a queue is executing its tasks in turn. `InTurn` tells of tasks that are executed one after
another with nothing else happening, and whatever a drain comes to is read off it: the count, the
failures, the tasks that are left, and the machine but for its log, to which the drain adds entries
of its own.

* `InTurn.drain`, `InTurn.drain_stop`: what is executed in turn is what a drain does.
* `exists_inTurn_of_drain`: a drain does nothing else.
* `GoesThrough`, `StopsShort`: the two ends of a drain.
* `ends_drainWithin_iff`: the same within a task.
* `draining_is_executing_in_turn`: every queue under both policies.
-/

namespace Workflow

variable {σ : Domain} {α : Type}

/-! ## Tasks in turn -/

namespace Stint

/-- The stint is what becomes of the task of the handle, executed from `m`. -/
structure IsOf (handle : Handle (Task σ)) (m : Machine σ) (s : Stint σ) : Prop where
  handle_eq : s.handle = handle
  start_eq : s.start = m
  ends : handle.task.Ends m s.result s.finish
  log_eq : s.finish.log = m.log ++ s.events

/-- All that a drain has in the log of the stint. -/
def entries (policy : Policy) (s : Stint σ) : List Event :=
  .taskStarted none s.handle.id s.name :: (s.events ++ (s.noted policy).map Event.failureNoted)

end Stint

/-- From `m` the tasks are executed one after another, each where the one before it has ended, and
the last of them ends at `m'`. -/
inductive InTurn : List (Handle (Task σ)) → Machine σ → List (Stint σ) → Machine σ → Prop where
  | nil {m : Machine σ} : InTurn [] m [] m
  | cons {handle : Handle (Task σ)} {rest : List (Handle (Task σ))} {m m' : Machine σ}
      {s : Stint σ} {stints : List (Stint σ)} :
      s.IsOf handle m → InTurn rest s.finish stints m' → InTurn (handle :: rest) m (s :: stints) m'

section InTurn

variable {policy : Policy} {handle : Handle (Task σ)} {handles rest : List (Handle (Task σ))}
  {m m' m₁ m₂ : Machine σ} {s : Stint σ} {stints : List (Stint σ)} {log : Log} {d : Drained σ}

theorem Task.Ends.withLog {t : Task σ} {result : TaskResult} {events : List Event}
    (h : t.Ends m result m') (hlog : m'.log = m.log ++ events) (log : Log) :
    t.Ends (m.withLog log) result (m'.withLog (log ++ events)) := by
  obtain ⟨fuel, h⟩ := h
  obtain ⟨events', hadds⟩ := t.execute_unread fuel m
  have heq := congrArg Array.toList ((hadds.log_eq h).symm.trans hlog)
  obtain rfl : events' = events := by simpa using heq
  exact ⟨fuel, (hadds log).trans (congrArg (Outcome.withLog · (log ++ events')) h)⟩

theorem InTurn.handles_eq (h : InTurn handles m stints m') : stints.map Stint.handle = handles := by
  induction h with
  | nil => rfl
  | cons hs _ ih => rw [List.map_cons, hs.handle_eq, ih]

theorem InTurn.of_append {stints stints' : List (Stint σ)}
    (h : InTurn handles m (stints ++ stints') m') :
    ∃ before behind m₁, handles = before ++ behind ∧ InTurn before m stints m₁ ∧
      InTurn behind m₁ stints' m' := by
  induction stints generalizing handles m with
  | nil => exact ⟨[], handles, m, rfl, .nil, h⟩
  | cons s stints ih =>
    cases h with
    | cons hs h =>
      obtain ⟨before, behind, m₁, rfl, hbefore, hbehind⟩ := ih h
      exact ⟨_, behind, m₁, rfl, .cons hs hbefore, hbehind⟩

/-! ## From turns to drains -/

theorem Drained.after_after (d : Drained σ) (s t : Summary) :
    (d.after s).after t = d.after (t ++ s) := by
  obtain ⟨result, left⟩ := d
  cases result with
  | ok summary => simp [Drained.after, Except.map, Summary.append_assoc]
  | error failure => rfl

theorem Drained.after_empty (d : Drained σ) : d.after .empty = d := by
  obtain ⟨result, left⟩ := d
  cases result with
  | ok summary => simp [Drained.after, Except.map, Summary.empty_append]
  | error failure => rfl

theorem tally_cons (s : Stint σ) (stints : List (Stint σ)) :
    tally (s :: stints) = tally [s] ++ tally stints := by
  cases hresult : s.result with
  | ok => rw [tally_cons_of_success hresult, tally_cons_of_success hresult]; rfl
  | error error => rw [tally_cons_of_error hresult, tally_cons_of_error hresult]; rfl

/-- The task of the stint is given out, and does there what it does in the stint. -/
def Stint.Given (execute : Task σ → Exec σ TaskResult) (m : Machine σ) (log : Log) (s : Stint σ) :
    Prop :=
  execute s.handle.task ((m.withLog log).logged (.taskStarted none s.handle.id s.name)) =
    .finished s.result
      (s.finish.withLog (log ++ .taskStarted none s.handle.id s.name :: s.events))

theorem Stint.IsOf.given (hs : s.IsOf handle m) (log : Log) :
    ∃ enough, ∀ fuel, enough ≤ fuel → s.Given (Task.execute fuel) m log := by
  have hends := hs.ends.withLog hs.log_eq (log.push (.taskStarted none handle.id handle.task.name))
  rw [← Array.appendList_cons] at hends
  unfold Stint.Given
  rw [Stint.name, hs.handle_eq]
  exact hends.eventually

section Given

variable {execute : Task σ → Exec σ TaskResult}

/-- A drain goes on behind a task at which it does not stop. -/
theorem Stint.Given.drain_cons (hs : s.Given execute m log)
    (hgo : policy = .failFast → s.failure? = none) (rest : List (Handle (Task σ))) :
    drain execute policy none (s.handle :: rest) (m.withLog log) =
      (drain execute policy none rest >>= fun d => pure (d.after (tally [s])))
        (s.finish.withLog (log ++ s.entries policy)) := by
  unfold Stint.Given at hs
  cases hresult : s.result with
  | ok =>
    rw [hresult] at hs
    rw [drain_of_success policy hs, tally_cons_of_success hresult, Stint.entries,
      Stint.noted_of_ok hresult, List.map_nil, List.append_nil]
    rfl
  | error error =>
    cases policy with
    | failFast => simp [Stint.failure?_of_error hresult] at hgo
    | keepGoing =>
      rw [hresult] at hs
      have hentries : s.entries .keepGoing = .taskStarted none s.handle.id s.name :: s.events ++
          [.failureNoted (error.attributed s.name)] := by
        simp [Stint.entries, Stint.noted, Stint.failure?_of_error hresult]
      rw [drain_of_error_keepGoing hs, ← Stint.name, Machine.withLog_logged, hentries,
        tally_cons_of_error hresult]
      rfl

/-- A drain that gives up at a failure stops there. -/
theorem Stint.Given.drain_stop (hs : s.Given execute m log) {failure : ExecutionError}
    (hfailure : s.failure? = some failure) (rest : List (Handle (Task σ))) :
    drain execute .failFast none (s.handle :: rest) (m.withLog log) =
      .finished ⟨.error failure, ⟨rest⟩⟩ (s.finish.withLog (log ++ s.entries .failFast)) := by
  unfold Stint.Given at hs
  cases hresult : s.result with
  | ok => simp [Stint.failure?, hresult] at hfailure
  | error error =>
    rw [hresult] at hs
    rw [Stint.failure?_of_error hresult] at hfailure
    cases hfailure
    rw [drain_of_error_failFast hs, Stint.entries, Stint.noted_failFast, List.map_nil,
      List.append_nil, Stint.name]

end Given

/-- Tasks at which a drain does not stop are executed in turn, and then come those behind them. -/
theorem InTurn.drain_append (h : InTurn handles m stints m₁)
    (hgo : policy = .failFast → ∀ s ∈ stints, s.failure? = none)
    (hrest : EndsEventually (fun fuel => drain (Task.execute fuel) policy none rest)
      (m₁.withLog (log ++ stints.flatMap (Stint.entries policy))) d m₂) :
    EndsEventually (fun fuel => drain (Task.execute fuel) policy none (handles ++ rest))
      (m.withLog log) (d.after (tally stints)) m₂ := by
  induction h generalizing log with
  | nil =>
    have hempty : d.after (tally ([] : List (Stint σ))) = d := d.after_empty
    simpa [hempty] using hrest
  | @cons handle behind m m' s stints hs hturn ih =>
    obtain ⟨enough₁, hgiven⟩ := hs.given log
    rw [List.flatMap_cons, ← Log.append_append] at hrest
    obtain ⟨enough₂, hbehind⟩ := ih (fun hp s' hs' => hgo hp s' (List.mem_cons_of_mem _ hs')) hrest
    refine ⟨max enough₁ enough₂, fun fuel hle => ?_⟩
    have hcons := (hgiven fuel (by omega)).drain_cons (fun hp => hgo hp s List.mem_cons_self)
      (behind ++ rest)
    have h₂ := hbehind fuel (by omega)
    rw [hs.handle_eq] at hcons
    simp only [List.cons_append, hcons, Exec.bind_of_finished h₂]
    rw [Drained.after_after, ← tally_cons]
    rfl

/-- Tasks that are all gone through are drained. -/
theorem InTurn.drain (h : InTurn handles m stints m')
    (hgo : policy = .failFast → ∀ s ∈ stints, s.failure? = none) :
    Ends (fun fuel => Workflow.drain (Task.execute fuel) policy none handles) m
      ⟨.ok (tally stints), .empty⟩
      (m'.withLog (m.log ++ stints.flatMap (Stint.entries policy))) := by
  have hnil : EndsEventually (fun fuel => Workflow.drain (Task.execute fuel) policy none [])
      (m'.withLog (m.log ++ stints.flatMap (Stint.entries policy))) ⟨.ok .empty, .empty⟩
      (m'.withLog (m.log ++ stints.flatMap (Stint.entries policy))) := .always fun _ => rfl
  have hends := (h.drain_append hgo hnil).ends
  rw [List.append_nil] at hends
  have hafter : Drained.after (tally stints) ⟨.ok .empty, .empty⟩ =
      (⟨.ok (tally stints), .empty⟩ : Drained σ) := by
    simp [Drained.after, Except.map, Summary.append_empty]
  rw [hafter] at hends
  exact hends

/-- After tasks that succeed, one that fails ends a drain that gives up. -/
theorem InTurn.drain_stop (h : InTurn handles m stints m₁) (hok : ∀ s ∈ stints, s.failure? = none)
    (hs : s.IsOf handle m₁) {failure : ExecutionError} (hfailure : s.failure? = some failure)
    (rest : List (Handle (Task σ))) :
    Ends (fun fuel => Workflow.drain (Task.execute fuel) .failFast none (handles ++ handle :: rest))
      m ⟨.error failure, ⟨rest⟩⟩
      (s.finish.withLog (m.log ++ (stints ++ [s]).flatMap (Stint.entries .failFast))) := by
  obtain ⟨enough, hgiven⟩ := hs.given (m.log ++ stints.flatMap (Stint.entries .failFast))
  have hstop : EndsEventually
      (fun fuel => Workflow.drain (Task.execute fuel) .failFast none (handle :: rest))
      (m₁.withLog (m.log ++ stints.flatMap (Stint.entries .failFast))) ⟨.error failure, ⟨rest⟩⟩
      (s.finish.withLog (m.log ++ (stints ++ [s]).flatMap (Stint.entries .failFast))) := by
    refine ⟨enough, fun fuel hle => ?_⟩
    have hdrain := (hgiven fuel hle).drain_stop hfailure rest
    rw [hs.handle_eq, Log.append_append] at hdrain
    rw [List.flatMap_append, List.flatMap_singleton]
    exact hdrain
  exact (h.drain_append (fun _ => hok) hstop).ends

/-! ## From drains to turns -/

theorem Outcome.eq_of_withLog {o : Outcome σ α} {v : α} (h : o.withLog log = .finished v m') :
    ∃ m₁, o = .finished v m₁ ∧ m' = m₁.withLog log := by
  cases o with
  | finished v' m₁ =>
    cases h
    exact ⟨m₁, rfl, rfl⟩
  | blocked => cases h
  | outOfFuel => cases h

theorem Settles.cons {r : RunResult} (h : Settles policy stints r)
    (hgo : policy = .failFast → s.failure? = none) :
    Settles policy (s :: stints) (r.map (tally [s] ++ ·)) := by
  cases hresult : s.result with
  | ok =>
    rw [tally_cons_of_success hresult]
    exact h.success hresult
  | error error =>
    cases policy with
    | failFast => simp [Stint.failure?_of_error hresult] at hgo
    | keepGoing =>
      have htally : tally [s] = .ofFailure (error.attributed s.name) := by
        rw [tally_cons_of_error hresult]
        rfl
      rw [htally]
      exact h.skip hresult

/-- A drain executes tasks in turn, up to the first at which it stops. -/
theorem exists_inTurn_of_drain {k : Nat}
    (h : drain (Task.execute k) policy none handles (m.withLog log) = .finished d m') :
    ∃ taken stints m₁, handles = taken ++ d.rest.handles ∧ InTurn taken m stints m₁ ∧
      Settles policy stints d.result ∧
      m' = m₁.withLog (log ++ stints.flatMap (Stint.entries policy)) := by
  induction handles generalizing m log d with
  | nil =>
    cases h
    exact ⟨[], [], m, rfl, .nil, .nil, by simp⟩
  | cons handle rest ih =>
    obtain ⟨result, m₂, hx, -⟩ := drain_cons_cases h
    obtain ⟨events, hadds⟩ := handle.task.execute_unread k m
    obtain ⟨m₁, hfinish, rfl⟩ := Outcome.eq_of_withLog ((hadds _).symm.trans hx)
    -- The task is the first in turn, whatever the log.
    let s : Stint σ := ⟨handle, m, result, m₁, events⟩
    have hs : s.IsOf handle m := ⟨rfl, rfl, ⟨k, hfinish⟩, hadds.log_eq hfinish⟩
    have hgiven : s.Given (Task.execute k) m log := by
      unfold Stint.Given
      rw [Array.appendList_cons]
      exact hx
    by_cases hgo : policy = .failFast → s.failure? = none
    · rw [hgiven.drain_cons hgo] at h
      obtain ⟨d', m₃, hrest, h⟩ := Exec.finished_of_bind h
      cases h
      obtain ⟨taken, stints, m₄, hhandles, hturn, hsettles, hm'⟩ := ih hrest
      refine ⟨handle :: taken, s :: stints, m₄, ?_, .cons hs hturn, hsettles.cons hgo, ?_⟩
      · rw [List.cons_append]
        exact congrArg (handle :: ·) hhandles
      · rw [hm', List.flatMap_cons, Log.append_append]
    · obtain ⟨rfl, hfailed⟩ : policy = .failFast ∧ s.failure? ≠ none := by simpa using hgo
      obtain ⟨failure, hfailure⟩ := Option.ne_none_iff_exists'.1 hfailed
      rw [hgiven.drain_stop hfailure] at h
      cases h
      refine ⟨[handle], [s], m₁, rfl, .cons hs .nil, ?_, ?_⟩
      · exact ⟨rfl, rfl, [], s, rfl, hfailure, nofun⟩
      · rw [List.flatMap_singleton]

end InTurn

/-! ## What it comes to -/

theorem executed_add_failures (stints : List (Stint σ)) :
    (tally stints).executed + (tally stints).failures.length = stints.length := by
  induction stints with
  | nil => rfl
  | cons s stints ih =>
    cases hresult : s.result with
    | ok =>
      simp only [tally_cons_of_success hresult, Summary.append_def, Summary.ofSuccess,
        List.nil_append, List.length_cons]
      omega
    | error error =>
      simp only [tally_cons_of_error hresult, Summary.append_def, Summary.ofFailure,
        List.length_append, List.length_cons, List.length_nil]
      omega

theorem entries_eq_of_succeeded {stints : List (Stint σ)} (hok : ∀ s ∈ stints, s.failure? = none)
    (policy policy' : Policy) :
    stints.flatMap (Stint.entries policy) = stints.flatMap (Stint.entries policy') := by
  have hquiet (s : Stint σ) (hs : s.failure? = none) (policy : Policy) :
      s.entries policy = .taskStarted none s.handle.id s.name :: s.events := by
    cases policy <;> simp [Stint.entries, Stint.noted, hs]
  induction stints with
  | nil => rfl
  | cons s stints ih =>
    obtain ⟨hs, hrest⟩ := List.forall_mem_cons.1 hok
    rw [List.flatMap_cons, List.flatMap_cons, ih hrest, hquiet s hs, hquiet s hs]

theorem failure?_eq_none_of_settles {stints : List (Stint σ)} {summary : Summary}
    (h : Settles .failFast stints (.ok summary)) : ∀ s ∈ stints, s.failure? = none := by
  obtain ⟨rfl, hnoted⟩ := h
  have hquiet : stints.flatMap (Stint.noted .failFast) = [] := by
    simp [Stint.noted_failFast]
  rw [hquiet] at hnoted
  exact List.filterMap_eq_nil_iff.1 hnoted.symm

/-- The last of the stints is the first that fails. -/
def FailsLast (stints : List (Stint σ)) (failure : ExecutionError) : Prop :=
  ∃ before last, stints = before ++ [last] ∧ last.failure? = some failure ∧
    ∀ s ∈ before, s.failure? = none

/-- All tasks of the queue are executed in turn, under `failFast` without a failure. Those that
succeed are counted, the failures of the others stand in order, and nothing is left. The machine is
that behind the last task, but for what the drain logs itself. -/
def GoesThrough (policy : Policy) (queue : Queue (Task σ)) (m : Machine σ) (d : Drained σ)
    (m' : Machine σ) : Prop :=
  ∃ stints m₁, InTurn queue.handles m stints m₁ ∧
    (policy = .failFast → ∀ s ∈ stints, s.failure? = none) ∧ d = ⟨.ok (tally stints), .empty⟩ ∧
    m' = m₁.withLog (m.log ++ stints.flatMap (Stint.entries policy))

/-- The tasks of the queue are executed in turn up to the first that fails. The failure is its
failure, and the tasks behind it are left. The machine is that behind this task. -/
def StopsShort (queue : Queue (Task σ)) (m : Machine σ) (d : Drained σ) (m' : Machine σ) : Prop :=
  ∃ taken rest stints failure m₁, queue.handles = taken ++ rest ∧ InTurn taken m stints m₁ ∧
    FailsLast stints failure ∧ d = ⟨.error failure, ⟨rest⟩⟩ ∧
    m' = m₁.withLog (m.log ++ stints.flatMap (Stint.entries .failFast))

section

variable {queue : Queue (Task σ)} {m m' : Machine σ} {d : Drained σ}

theorem exists_inTurn_of_execute {fuel : Nat} {policy : Policy}
    (h : queue.execute fuel policy m = .finished d m') :
    ∃ taken stints m₁, queue.handles = taken ++ d.rest.handles ∧ InTurn taken m stints m₁ ∧
      Settles policy stints d.result ∧
      m' = m₁.withLog (m.log ++ stints.flatMap (Stint.entries policy)) := by
  have hself : m.withLog m.log = m := rfl
  unfold Queue.execute at h
  rw [← hself] at h
  exact exists_inTurn_of_drain h

theorem GoesThrough.ends {policy : Policy} (h : GoesThrough policy queue m d m') :
    Ends (fun fuel => queue.execute fuel policy) m d m' := by
  obtain ⟨stints, m₁, hturn, hgo, rfl, rfl⟩ := h
  exact hturn.drain hgo

/-- Where no task fails, both policies come to the same. -/
theorem InTurn.ends_iff {stints : List (Stint σ)} {m₁ : Machine σ}
    (h : InTurn queue.handles m stints m₁) (hok : ∀ s ∈ stints, s.failure? = none)
    (policy : Policy) : Ends (fun fuel => queue.execute fuel policy) m d m' ↔
      d = ⟨.ok (tally stints), .empty⟩ ∧
        m' = m₁.withLog (m.log ++ stints.flatMap (Stint.entries .failFast)) := by
  have hends : Ends (fun fuel => queue.execute fuel policy) m _ _ := h.drain fun _ => hok
  rw [entries_eq_of_succeeded hok policy .failFast] at hends
  constructor
  · intro h
    exact Ends.deterministic (drain_rising _ _ queue.handles) h hends
  · rintro ⟨rfl, rfl⟩
    exact hends

theorem ends_keepGoing_iff : Ends (fun fuel => queue.execute fuel .keepGoing) m d m' ↔
    GoesThrough .keepGoing queue m d m' := by
  constructor
  · rintro ⟨fuel, h⟩
    obtain ⟨summary, hresult⟩ := ok_of_drain_keepGoing h
    have hrest := rest_eq_empty_of_drain h hresult
    obtain ⟨taken, stints, m₁, hhandles, hturn, hsettles, hm'⟩ := exists_inTurn_of_execute h
    obtain ⟨result, rest⟩ := d
    cases hresult
    cases hrest
    obtain ⟨rfl, -⟩ := hsettles
    have htaken : queue.handles = taken := hhandles.trans (List.append_nil taken)
    rw [← htaken] at hturn
    exact ⟨stints, m₁, hturn, fun hpolicy => absurd hpolicy (by decide), rfl, hm'⟩
  · exact GoesThrough.ends

theorem ends_failFast_iff : Ends (fun fuel => queue.execute fuel .failFast) m d m' ↔
    GoesThrough .failFast queue m d m' ∨ StopsShort queue m d m' := by
  constructor
  · rintro ⟨fuel, h⟩
    obtain ⟨taken, stints, m₁, hhandles, hturn, hsettles, hm'⟩ := exists_inTurn_of_execute h
    obtain ⟨result, ⟨rest⟩⟩ := d
    cases result with
    | ok summary =>
      cases rest_eq_empty_of_drain h rfl
      have htaken : queue.handles = taken := hhandles.trans (List.append_nil taken)
      rw [← htaken] at hturn
      have hok := failure?_eq_none_of_settles hsettles
      obtain ⟨rfl, -⟩ := hsettles
      exact .inl ⟨stints, m₁, hturn, fun _ => hok, rfl, hm'⟩
    | error failure =>
      obtain ⟨-, -, hfails⟩ := hsettles
      exact .inr ⟨taken, rest, stints, failure, m₁, hhandles, hturn, hfails, rfl, hm'⟩
  · rintro (h | ⟨taken, rest, _, failure, m₂, hhandles, hturn, ⟨stints, last, rfl, hlast, hok⟩,
      rfl, rfl⟩)
    · exact h.ends
    · obtain ⟨before, behind, m₁, rfl, hbefore, hbehind⟩ := hturn.of_append
      cases hbehind with
      | cons hs hnil =>
        cases hnil
        rw [List.append_assoc] at hhandles
        have hstop := hbefore.drain_stop hok hs hlast rest
        simp only [Queue.execute, hhandles]
        exact hstop

/-! ## Within a task -/

/-- A queue within a task is gone through, and then that is a success, or it stops at the first
failure, and then this is the error. -/
def ComesThrough (queue : Queue (Task σ)) (m : Machine σ) (result : TaskResult) (m' : Machine σ) :
    Prop :=
  (result = .ok () ∧ ∃ d, GoesThrough .failFast queue m d m') ∨
    ∃ failure rest, result = .error (.execution failure) ∧
      StopsShort queue m ⟨.error failure, rest⟩ m'

theorem ends_drainWithin_iff {result : TaskResult} :
    Ends (fun fuel => drainWithin (Task.execute fuel) queue) m result m' ↔
      ComesThrough queue m result m' := by
  constructor
  · rintro ⟨fuel, h⟩
    obtain ⟨d, m₁, hdrain, h⟩ := Exec.finished_of_bind h
    cases h
    rcases ends_failFast_iff.1 ⟨fuel, hdrain⟩ with ⟨stints, m₂, hturn, hok, rfl, rfl⟩ | hstops
    · exact .inl ⟨rfl, _, stints, m₂, hturn, hok, rfl, rfl⟩
    · obtain ⟨taken, rest, stints, failure, m₂, hhandles, hturn, hfails, rfl, rfl⟩ := hstops
      exact .inr ⟨failure, ⟨rest⟩, rfl, taken, rest, stints, failure, m₂, hhandles, hturn, hfails,
        rfl, rfl⟩
  · rintro (⟨rfl, d, hthrough⟩ | ⟨failure, rest, rfl, hstops⟩)
    · obtain ⟨fuel, hdrain⟩ := hthrough.ends
      obtain ⟨stints, _, _, _, rfl, _⟩ := hthrough
      exact ⟨fuel, Exec.bind_of_finished hdrain⟩
    · obtain ⟨fuel, hdrain⟩ := ends_failFast_iff.2 (.inr hstops)
      exact ⟨fuel, Exec.bind_of_finished hdrain⟩

end

/-- What draining a queue comes to is read off its tasks executed in turn. Under `keepGoing` it
comes to its end if they all do, and never fails. Under `failFast` it comes to the same end if no
task fails, and otherwise stops at the first failure. Every task is counted once or has failed once.
An emptied queue can be drained again, which does nothing. -/
theorem draining_is_executing_in_turn (queue : Queue (Task σ)) (m : Machine σ) :
    (∀ d m', Ends (fun fuel => queue.execute fuel .keepGoing) m d m' ↔
      GoesThrough .keepGoing queue m d m') ∧
    (∀ d m', Ends (fun fuel => queue.execute fuel .failFast) m d m' ↔
      GoesThrough .failFast queue m d m' ∨ StopsShort queue m d m') ∧
    (∀ stints m₁, InTurn queue.handles m stints m₁ →
      stints.map Stint.handle = queue.handles ∧
      (tally stints).executed + (tally stints).failures.length = queue.size ∧
      ((∀ s ∈ stints, s.failure? = none) → ∀ d m',
        Ends (fun fuel => queue.execute fuel .keepGoing) m d m' ↔
          Ends (fun fuel => queue.execute fuel .failFast) m d m')) ∧
    (∀ answer m', Ends (fun fuel => queue.executeAll fuel) m answer m' ↔
      ∃ d, Ends (fun fuel => queue.execute fuel .failFast) m d m' ∧
        answer = (d.result.map Summary.executed, d.rest)) ∧
    ∀ policy d m', Ends (fun fuel => queue.execute fuel policy) m d m' → d.rest.isEmpty →
      (∀ fuel policy', d.rest.execute fuel policy' m' = .finished ⟨.ok .empty, .empty⟩ m') ∧
      ∀ fuel, d.rest.executeAll fuel m' = .finished (.ok 0, .empty) m' := by
  refine ⟨fun _ _ => ends_keepGoing_iff, fun _ _ => ends_failFast_iff, ?_, ?_, ?_⟩
  · intro stints m₁ hturn
    have hhandles := hturn.handles_eq
    refine ⟨hhandles, ?_, fun hok d m' => ?_⟩
    · rw [executed_add_failures, Queue.size, ← hhandles, List.length_map]
    · rw [hturn.ends_iff hok, hturn.ends_iff hok]
  · intro answer m'
    constructor
    · rintro ⟨fuel, h⟩
      obtain ⟨d, m₁, hdrain, h⟩ := Exec.finished_of_bind h
      cases h
      exact ⟨d, ⟨fuel, hdrain⟩, rfl⟩
    · rintro ⟨d, ⟨fuel, h⟩, rfl⟩
      exact ⟨fuel, Exec.bind_of_finished h⟩
  · intro policy d m' _ hempty
    obtain ⟨result, ⟨rest⟩⟩ := d
    obtain rfl : rest = [] := List.isEmpty_iff.1 hempty
    exact ⟨fun _ _ => rfl, fun _ => rfl⟩

def wearingQueue : Queue (Task Nat) := ⟨[⟨⟨0⟩, wearing⟩, ⟨⟨1⟩, wearing⟩, ⟨⟨2⟩, wearing⟩]⟩

/-- What becomes of the wearing leaf. -/
def wearingStint (id : TaskId) (count : Nat) (log : List Event) : Stint Nat where
  handle := ⟨id, wearing⟩
  start := wearingAt count log
  result := if count = 1 then .error (.plain "worn out") else .ok ()
  finish := wearingAt (count + 1) (log ++ [.leafStarted "wearing"])
  events := [.leafStarted "wearing"]

theorem wearing_is_drained :
    let charge := ExecutionError.taskFailed "wearing" (.plain "worn out")
    let said := Event.leafStarted "wearing"
    let taken := [wearingStint ⟨0⟩ 0 [], wearingStint ⟨1⟩ 1 [said]]
    let stints := taken ++ [wearingStint ⟨2⟩ 2 [said, said]]
    let fresh := wearingAt 0 []
    InTurn wearingQueue.handles fresh stints (wearingAt 3 [said, said, said]) ∧
      (tally stints).executed + (tally stints).failures.length = 3 ∧
      (∃ m', Ends (fun fuel => wearingQueue.execute fuel .keepGoing) fresh
          ⟨.ok ⟨2, [charge]⟩, .empty⟩ m' ∧ m'.state = 3 ∧
        ∀ fuel, Queue.empty.executeAll fuel m' = .finished (.ok 0, .empty) m') ∧
      (∃ m', Ends (fun fuel => wearingQueue.execute fuel .failFast) fresh
          ⟨.error charge, ⟨[⟨⟨2⟩, wearing⟩]⟩⟩ m' ∧ m'.state = 2 ∧
        Ends (fun fuel => wearingQueue.executeAll fuel) fresh
          (.error charge, ⟨[⟨⟨2⟩, wearing⟩]⟩) m') ∧
      ∀ d m', Ends (fun fuel => Queue.execute fuel .keepGoing ⟨[⟨⟨0⟩, wearing⟩]⟩) fresh d m' ↔
        Ends (fun fuel => Queue.execute fuel .failFast ⟨[⟨⟨0⟩, wearing⟩]⟩) fresh d m' := by
  intro charge said taken stints fresh
  have htaken : InTurn [⟨⟨0⟩, wearing⟩, ⟨⟨1⟩, wearing⟩] fresh taken (wearingAt 2 [said, said]) :=
    .cons ⟨rfl, rfl, ⟨2, rfl⟩, rfl⟩ (.cons ⟨rfl, rfl, ⟨2, rfl⟩, rfl⟩ .nil)
  have hturn : InTurn wearingQueue.handles fresh stints (wearingAt 3 [said, said, said]) :=
    .cons ⟨rfl, rfl, ⟨2, rfl⟩, rfl⟩ (.cons ⟨rfl, rfl, ⟨2, rfl⟩, rfl⟩
      (.cons ⟨rfl, rfl, ⟨2, rfl⟩, rfl⟩ .nil))
  have hone : InTurn [⟨⟨0⟩, wearing⟩] fresh [wearingStint ⟨0⟩ 0 []] (wearingAt 1 [said]) :=
    .cons ⟨rfl, rfl, ⟨2, rfl⟩, rfl⟩ .nil
  obtain ⟨hkeep, hfast, hcount, hall, hagain⟩ := draining_is_executing_in_turn wearingQueue fresh
  have hkept := (hkeep _ _).2 ⟨stints, _, hturn, nofun, rfl, rfl⟩
  have hlast : FailsLast taken charge :=
    ⟨[wearingStint ⟨0⟩ 0 []], wearingStint ⟨1⟩ 1 [said], rfl, rfl,
      by simp [wearingStint, Stint.failure?]⟩
  have hstopped := (hfast _ _).2 <|
    .inr ⟨_, [⟨⟨2⟩, wearing⟩], taken, charge, _, rfl, htaken, hlast, rfl, rfl⟩
  refine ⟨hturn, (hcount stints _ hturn).2.1, ⟨_, hkept, rfl, (hagain _ _ _ hkept rfl).2⟩,
    ⟨_, hstopped, rfl, (hall _ _).2 ⟨_, hstopped, rfl⟩⟩, ?_⟩
  obtain ⟨-, -, hcount, -⟩ := draining_is_executing_in_turn ⟨[⟨⟨0⟩, wearing⟩]⟩ fresh
  exact (hcount _ _ hone).2.2 (by simp [wearingStint, Stint.failure?])

end Workflow
