import Workflow.Proofs.Fuel

/-! # Workflow.Proofs.Attribution

What becomes of a failure inside a task. `t.Reaches m u m'` says that executing `t` from `m` gets to
executing `u`, a task somewhere below `t`, from `m'`; `u.Fails m f m'` says that `u` itself, and no
task below it, comes to a failure at `m'` which is to be charged as `f`.

* `Task.Enters.ends_error`: one level. A task ends where the task that it entered ends in an error,
  and what the queues above make of the error stays the same.
* `Task.Reaches.ends_error`: all levels.
-/

namespace Workflow

variable {σ : Domain}

/-- The task goes from `m` to its end at `m'`. -/
def Task.Ends (t : Task σ) (m : Machine σ) (result : TaskResult) (m' : Machine σ) : Prop :=
  Workflow.Ends (fun fuel => t.execute fuel) m result m'

theorem Task.Ends.eventually {t : Task σ} {m m' : Machine σ} {result : TaskResult}
    (h : t.Ends m result m') :
    ∃ enough, ∀ fuel, enough ≤ fuel → t.execute fuel m = .finished result m' :=
  Workflow.Ends.eventually t.execute_rising h

/-- A queue within a task, drained from `m`, gives out a task that is executed from `m'`; the tasks
before it succeed. -/
inductive GivesOut : List (Handle (Task σ)) → Machine σ → Task σ → Machine σ → Prop where
  | here {handle : Handle (Task σ)} {rest : List (Handle (Task σ))} {m : Machine σ} :
      GivesOut (handle :: rest) m handle.task
        (m.logged (.taskStarted none handle.id handle.task.name))
  | behind {handle : Handle (Task σ)} {rest : List (Handle (Task σ))} {m m₁ m₂ : Machine σ}
      {u : Task σ} :
      handle.task.Ends (m.logged (.taskStarted none handle.id handle.task.name)) (.ok ()) m₁ →
      GivesOut rest m₁ u m₂ → GivesOut (handle :: rest) m u m₂

/-- From `m`, a loop makes that many passes in full and is then at `m'`. -/
inductive Passes (condition : Condition σ) (limit : Option Nat) (body : Factory σ (Task σ)) :
    Machine σ → Nat → Machine σ → Prop where
  | none {m : Machine σ} : Passes condition limit body m 0 m
  | next {m m₁ m₂ m₃ m₄ : Machine σ} {passes : Nat} {queue : Queue (Task σ)} :
      Passes condition limit body m passes m₁ →
      Exec.ask condition m₁ = .finished true m₂ →
      (∀ n ∈ limit, passes < n) →
      body.build m₂ = .finished queue m₃ →
      Workflow.Ends (fun fuel => drainWithin (Task.execute fuel) queue) m₃ (.ok ()) m₄ →
      Passes condition limit body m (passes + 1) m₄

namespace Task

/-- Executing a task from `m` gets to executing a task directly below it from `m'`. -/
inductive Enters : Task σ → Machine σ → Task σ → Machine σ → Prop where
  | branch {condition : Condition σ} {thenQueue elseQueue : Factory σ (Task σ)} {holds : Bool}
      {queue : Queue (Task σ)} {m m₁ m₂ m' : Machine σ} {u : Task σ} :
      Exec.ask condition m = .finished holds m₁ →
      (if holds then thenQueue else elseQueue).build (m₁.logged (.branched holds)) =
        .finished queue m₂ →
      GivesOut queue.handles m₂ u m' →
      Enters (conditional condition thenQueue elseQueue) m u m'
  | pass {condition : Condition σ} {limit : Option Nat} {body : Factory σ (Task σ)}
      {passes : Nat} {queue : Queue (Task σ)} {m m₁ m₂ m₃ m' : Machine σ} {u : Task σ} :
      Passes condition limit body m passes m₁ →
      Exec.ask condition m₁ = .finished true m₂ →
      (∀ n ∈ limit, passes < n) →
      body.build m₂ = .finished queue m₃ →
      GivesOut queue.handles m₃ u m' →
      Enters (loop condition limit body) m u m'
  | case {s : Switch σ (Task σ)} {key : σ.Key} {event : Event} {queue : Queue (Task σ)}
      {m m₁ m' : Machine σ} {u : Task σ} :
      Exec.ask s.selector m = .finished key m₁ →
      s.choose key = (event, some queue) →
      GivesOut queue.handles (m₁.logged event) u m' →
      Enters (switch s) m u m'
  | aspect {inner : Task σ} {before : Option (Hook σ Bool)} {after : Option (Hook σ Unit)}
      {m m' : Machine σ} :
      opens before m = .finished true m' → Enters (aspect inner before after) m inner m'
  | shared {inner : Task σ} {m : Machine σ} : Enters (shared inner) m inner m
  /-- What is referred to has the name that the reference gives it. -/
  | reference {r : Reference} {t : Task σ} {m : Machine σ} :
      m.store.object? r.id = some t → t.name = r.name → Enters (reference r) m t m

/-- Executing a task from `m` gets to executing a task at some depth below it, or the task itself,
from `m'`. -/
inductive Reaches : Task σ → Machine σ → Task σ → Machine σ → Prop where
  | refl {t : Task σ} {m : Machine σ} : Reaches t m t m
  | step {t u v : Task σ} {m m₁ m₂ : Machine σ} :
      Enters t m u m₁ → Reaches u m₁ v m₂ → Reaches t m v m₂

/-- A leaf returns an error, or a loop finds its condition true with its limit used up; `m'` is that
moment, and `failure` what the task is to be charged with. -/
inductive Fails : Task σ → Machine σ → ExecutionError → Machine σ → Prop where
  | leaf {name : String} {body : Leaf σ TaskResult} {m m' : Machine σ} {error : TaskError} :
      (leaf name body).Ends m (.error error) m' →
      Fails (leaf name body) m (error.attributed name) m'
  | limit {condition : Condition σ} {body : Factory σ (Task σ)} {n : Nat} {m m₁ m' : Machine σ} :
      Passes condition (some n) body m n m₁ →
      Exec.ask condition m₁ = .finished true m' →
      Fails (loop condition (some n) body) m (.iterationLimitExceeded "loop" n) m'

/-- Those that run queues of their own. -/
def IsControlFlow : Task σ → Prop
  | conditional .. | loop .. | switch .. => True
  | _ => False

end Task

/-! ## One level -/

theorem GivesOut.drain_error {handles : List (Handle (Task σ))} {u : Task σ} {m m₁ m₂ : Machine σ}
    {error : TaskError} (h : GivesOut handles m u m₁) (hu : u.Ends m₁ (.error error) m₂) :
    ∃ rest, Ends (fun fuel => drain (Task.execute fuel) .failFast none handles) m
      ⟨.error (error.attributed u.name), rest⟩ m₂ := by
  induction h with
  | @here handle rest m =>
    obtain ⟨fuel, hu⟩ := hu
    exact ⟨⟨rest⟩, fuel, drain_of_error_failFast hu⟩
  | @behind handle rest m m₁ m₂ u hok _ ih =>
    obtain ⟨left, hrest⟩ := ih hu
    obtain ⟨enough₁, hok⟩ := hok.eventually
    obtain ⟨enough₂, hrest⟩ := hrest.eventually (drain_rising _ _ _)
    refine ⟨left, max enough₁ enough₂, ?_⟩
    have hdrain := hrest (max enough₁ enough₂) (by omega)
    have hfirst := hok (max enough₁ enough₂) (by omega)
    simp only [drain_of_success _ hfirst, Exec.bind_of_finished hdrain]
    rfl

/-- A queue within a task passes the failure of its task on as an error that names the task. -/
theorem GivesOut.drainWithin_error {queue : Queue (Task σ)} {u : Task σ} {m m₁ m₂ : Machine σ}
    {error : TaskError} (h : GivesOut queue.handles m u m₁) (hu : u.Ends m₁ (.error error) m₂) :
    ∃ enough, ∀ fuel, enough ≤ fuel → drainWithin (Task.execute fuel) queue m =
      .finished (.error (.execution (error.attributed u.name))) m₂ := by
  obtain ⟨rest, hdrain⟩ := h.drain_error hu
  obtain ⟨enough, hdrain⟩ := hdrain.eventually (drain_rising _ _ _)
  refine ⟨enough, fun fuel hle => ?_⟩
  simp only [drainWithin, Exec.bind_of_finished (hdrain fuel hle)]
  rfl

/-- The passes that a loop makes in full can be left out of its execution. -/
theorem Passes.iterate {condition : Condition σ} {limit : Option Nat} {body : Factory σ (Task σ)}
    {m m' : Machine σ} {passes : Nat} (h : Passes condition limit body m passes m')
    (name : String) :
    ∃ enough, ∀ fuel more, enough ≤ fuel →
      iterate (Task.execute fuel) name condition limit body 0 (passes + more) m =
        iterate (Task.execute fuel) name condition limit body passes more m' := by
  induction h with
  | none => exact ⟨0, fun fuel more _ => by rw [Nat.zero_add]⟩
  | @next m₁ m₂ m₃ m₄ passes queue _ hask hlimit hbuild hbody ih =>
    obtain ⟨enough₁, ih⟩ := ih
    obtain ⟨enough₂, hbody⟩ := hbody.eventually (drainWithin_rising queue)
    refine ⟨max enough₁ enough₂, fun fuel more hle => ?_⟩
    have hpass := iterate_of_true name more hask hlimit hbuild (hbody fuel (by omega))
    rw [show passes + 1 + more = passes + (more + 1) by omega, ih fuel _ (by omega), hpass]

namespace Task

/-- The task above ends at the same moment, and with an error that is charged alike. -/
theorem Enters.ends_error {t u : Task σ} {m m₁ m₂ : Machine σ} {error : TaskError}
    (h : Enters t m u m₁) (hu : u.Ends m₁ (.error error) m₂) :
    ∃ error', t.Ends m (.error error') m₂ ∧ error'.attributed t.name = error.attributed u.name := by
  cases h with
  | branch hask hbuild hout =>
    obtain ⟨enough, hdrain⟩ := hout.drainWithin_error hu
    refine ⟨.execution (error.attributed u.name), ⟨enough + 1, ?_⟩, rfl⟩
    simp only [execute, perform]
    rw [Exec.bind_of_finished hask, Exec.emit_bind, Exec.bind_of_finished hbuild]
    exact hdrain enough (Nat.le_refl _)
  | @pass condition limit body passes _ _ _ _ _ _ _ hpasses hask hlimit hbuild hout =>
    obtain ⟨enough₁, hpasses⟩ := hpasses.iterate "loop"
    obtain ⟨enough₂, hdrain⟩ := hout.drainWithin_error hu
    let fuel := passes + (max enough₁ enough₂ + 1)
    refine ⟨.execution (error.attributed u.name), ⟨fuel + 1, ?_⟩, rfl⟩
    have hlast := iterate_of_true "loop" (max enough₁ enough₂) hask hlimit hbuild
      (hdrain fuel (by omega))
    exact (hpasses fuel _ (by omega)).trans hlast
  | case hask hchoice hout =>
    obtain ⟨enough, hdrain⟩ := hout.drainWithin_error hu
    refine ⟨.execution (error.attributed u.name), ⟨enough + 1, ?_⟩, rfl⟩
    simp only [execute, perform]
    rw [Exec.bind_of_finished hask, hchoice]
    exact hdrain enough (Nat.le_refl _)
  | @aspect _ before after _ _ hopen =>
    obtain ⟨enough, hu⟩ := hu.eventually
    refine ⟨error, ⟨enough + 1, ?_⟩, rfl⟩
    simp only [execute, perform]
    rw [Exec.bind_of_finished hopen, if_pos rfl, Exec.bind_of_finished (hu enough (Nat.le_refl _))]
    rfl
  | shared =>
    obtain ⟨enough, hu⟩ := hu
    exact ⟨error, ⟨enough + 1, hu⟩, rfl⟩
  | reference hobject hname =>
    obtain ⟨enough, hu⟩ := hu
    refine ⟨error, ⟨enough + 1, ?_⟩, by rw [hname]; rfl⟩
    simp only [execute, perform, Exec.look_bind, hobject]
    exact hu

/-! ## All levels -/

theorem Reaches.ends_error {t u : Task σ} {m m₁ m₂ : Machine σ} {error : TaskError}
    (h : Reaches t m u m₁) (hu : u.Ends m₁ (.error error) m₂) :
    ∃ error', t.Ends m (.error error') m₂ ∧ error'.attributed t.name = error.attributed u.name := by
  induction h with
  | refl => exact ⟨error, hu, rfl⟩
  | step henters _ ih =>
    obtain ⟨error₁, hmiddle, hname₁⟩ := ih hu
    obtain ⟨error₂, htop, hname₂⟩ := henters.ends_error hmiddle
    exact ⟨error₂, htop, hname₂.trans hname₁⟩

theorem Fails.ends_error {t : Task σ} {m m' : Machine σ} {failure : ExecutionError}
    (h : t.Fails m failure m') :
    ∃ error, t.Ends m (.error error) m' ∧ error.attributed t.name = failure := by
  cases h with
  | @leaf name body _ _ error hbody => exact ⟨error, hbody, rfl⟩
  | @limit condition body n _ _ _ hpasses hask =>
    obtain ⟨enough, hpasses⟩ := hpasses.iterate "loop"
    let fuel := n + (enough + 1)
    refine ⟨.execution (.iterationLimitExceeded "loop" n), ⟨fuel + 1, ?_⟩, rfl⟩
    refine (hpasses fuel _ (by omega)).trans ?_
    exact iterate_of_exceeded "loop" enough n hask (Nat.le_refl n)

end Task

/-! ## Control flow -/

theorem error_of_drainWithin {execute : Task σ → Exec σ TaskResult} {queue : Queue (Task σ)}
    {m m' : Machine σ} {error : TaskError}
    (h : drainWithin execute queue m = .finished (.error error) m') :
    ∃ failure, error = .execution failure := by
  obtain ⟨drained, m₁, _, h⟩ := Exec.finished_of_bind h
  cases hresult : drained.result with
  | ok summary => rw [hresult] at h; cases h
  | error failure => rw [hresult] at h; cases h; exact ⟨failure, rfl⟩

theorem error_of_iterate {execute : Task σ → Exec σ TaskResult} {name : String}
    {condition : Condition σ} {limit : Option Nat} {body : Factory σ (Task σ)}
    {iterations fuel : Nat} {m m' : Machine σ} {error : TaskError}
    (h : iterate execute name condition limit body iterations fuel m =
      .finished (.error error) m') :
    ∃ failure, error = .execution failure := by
  induction fuel generalizing iterations m with
  | zero => cases h
  | succ fuel ih =>
    obtain ⟨holds, m₁, _, h⟩ := Exec.finished_of_bind h
    cases holds with
    | false =>
      obtain ⟨_, _, _, h⟩ := Exec.finished_of_bind h
      cases h
    | true =>
      cases hlimit : limit.filter (· ≤ iterations) with
      | some n =>
        simp only [if_true, hlimit] at h
        cases h
        exact ⟨_, rfl⟩
      | none =>
        simp only [if_true, hlimit] at h
        obtain ⟨queue, m₂, _, h⟩ := Exec.finished_of_bind h
        obtain ⟨result, m₃, hbody, h⟩ := Exec.finished_of_bind h
        cases result with
        | ok => exact ih h
        | error error =>
          cases h
          exact error_of_drainWithin hbody

theorem Task.IsControlFlow.error {t : Task σ} (ht : t.IsControlFlow) {m m' : Machine σ}
    {error : TaskError} (h : t.Ends m (.error error) m') :
    ∃ failure, error = .execution failure := by
  obtain ⟨fuel, h⟩ := h
  cases fuel with
  | zero => cases h
  | succ fuel =>
    cases t with
    | conditional condition thenQueue elseQueue =>
      obtain ⟨_, _, _, h⟩ := Exec.finished_of_bind h
      obtain ⟨_, _, _, h⟩ := Exec.finished_of_bind h
      obtain ⟨_, _, _, h⟩ := Exec.finished_of_bind h
      exact error_of_drainWithin h
    | loop condition limit body => exact error_of_iterate h
    | switch s =>
      obtain ⟨key, m₁, _, h⟩ := Exec.finished_of_bind h
      rcases hchoice : s.choose key with ⟨event, queue?⟩
      rw [hchoice] at h
      obtain ⟨_, _, _, h⟩ := Exec.finished_of_bind h
      cases queue? with
      | none => cases h
      | some queue => exact error_of_drainWithin h
    | leaf | aspect | shared | reference => exact ht.elim

/-! ## Failures at any depth -/

/-- A failure below a task ends the task there and then. It leaves the machine as it is at that
moment, so nothing of the task happens afterwards, and the queue that gave the task out obtains the
one failure of the innermost task. A task that runs queues of its own has no other errors than
failures. -/
theorem nested_failure_is_charged_once :
    (∀ {t u : Task σ} {m m₁ m₂ : Machine σ} {failure : ExecutionError},
      t.Reaches m u m₁ → u.Fails m₁ failure m₂ →
      (∃ error, error.attributed t.name = failure ∧
        ∀ result m', t.Ends m result m' ↔ result = .error error ∧ m' = m₂) ∧
      ∀ (policy : Policy) (origin : Option ContainerId) (id : TaskId)
        (rest : List (Handle (Task σ))) (m₀ : Machine σ),
        m₀.logged (.taskStarted origin id t.name) = m →
        ∃ enough, ∀ fuel, enough ≤ fuel →
          drain (Task.execute fuel) policy origin (⟨id, t⟩ :: rest) m₀ =
            match policy with
            | .failFast => .finished ⟨.error failure, ⟨rest⟩⟩ m₂
            | .keepGoing =>
              (drain (Task.execute fuel) .keepGoing origin rest >>= fun d =>
                pure (d.after (.ofFailure failure))) (m₂.logged (.failureNoted failure))) ∧
    (∀ {t : Task σ} {m m' : Machine σ} {error : TaskError},
      t.IsControlFlow → t.Ends m (.error error) m' → ∃ failure, error = .execution failure) := by
  refine ⟨?_, fun ht h => ht.error h⟩
  intro t u m m₁ m₂ failure hreach hfail
  obtain ⟨inner, hinner, hcharge⟩ := hfail.ends_error
  obtain ⟨error, hends, hsame⟩ := hreach.ends_error hinner
  have hfailure : error.attributed t.name = failure := hsame.trans hcharge
  refine ⟨⟨error, hfailure, fun result m' => ⟨fun h => ?_, ?_⟩⟩, ?_⟩
  · exact Ends.deterministic t.execute_rising h hends
  · rintro ⟨rfl, rfl⟩
    exact hends
  · intro policy origin id rest m₀ hm
    obtain ⟨enough, hends⟩ := hends.eventually
    refine ⟨enough, fun fuel hle => ?_⟩
    have ht : t.execute fuel (m₀.logged (.taskStarted origin id t.name)) =
        .finished (.error error) m₂ := by
      rw [hm]
      exact hends fuel hle
    cases policy with
    | failFast => rw [← hfailure, drain_of_error_failFast ht]
    | keepGoing => rw [← hfailure, drain_of_error_keepGoing ht]

/-- A leaf that fails the second time. -/
def wearing : Task Nat :=
  .leaf "wearing" <| .read fun scope => .write { scope with state := scope.state + 1 } <|
    .done (if scope.state = 1 then .error (.plain "worn out") else .ok ())

def wearingLoop : Task Nat :=
  .loop (fun scope => .of scope true) (some 5)
    (.template ⟨[⟨⟨0⟩, .aspect wearing none (some (.done ()))⟩]⟩)

/-- A machine with that count and that log, and nothing else. -/
def wearingAt (count : Nat) (log : List Event) : Machine Nat := ⟨⟨.empty, count⟩, .empty, ⟨log⟩⟩

theorem wearing_is_charged_once :
    let given := Event.taskStarted none ⟨0⟩ "wearing"
    let started := Event.leafStarted "wearing"
    let charge := ExecutionError.taskFailed "wearing" (.plain "worn out")
    wearingLoop.Reaches (wearingAt 0 []) wearing (wearingAt 1 [given, started, given]) ∧
      wearing.Fails (wearingAt 1 [given, started, given]) charge
        (wearingAt 2 [given, started, given, started]) ∧
      ∃ error, error.attributed "loop" = charge ∧ (∃ failure, error = .execution failure) ∧
        ∀ result m', wearingLoop.Ends (wearingAt 0 []) result m' ↔
          result = .error error ∧ m' = wearingAt 2 [given, started, given, started] := by
  intro given started charge
  have hpass : Passes (fun scope => .of scope true) (some 5)
      (.template ⟨[⟨⟨0⟩, .aspect wearing none (some (.done ()))⟩]⟩)
      (wearingAt 0 []) 1 (wearingAt 1 [given, started]) :=
    .next .none rfl (by simp) rfl ⟨3, rfl⟩
  have hreach : wearingLoop.Reaches (wearingAt 0 []) wearing
      (wearingAt 1 [given, started, given]) :=
    .step (.pass hpass rfl (by simp) rfl .here) (.step (.aspect rfl) .refl)
  have hleaf : wearing.Ends (wearingAt 1 [given, started, given]) (.error (.plain "worn out"))
      (wearingAt 2 [given, started, given, started]) := ⟨2, rfl⟩
  have hfail : wearing.Fails (wearingAt 1 [given, started, given]) charge
      (wearingAt 2 [given, started, given, started]) := .leaf hleaf
  obtain ⟨⟨error, hcharge, hends⟩, _⟩ := nested_failure_is_charged_once.1 hreach hfail
  have herror :=
    nested_failure_is_charged_once.2 (t := wearingLoop) trivial ((hends _ _).2 ⟨rfl, rfl⟩)
  exact ⟨hreach, hfail, error, hcharge, herror, hends⟩

end Workflow
