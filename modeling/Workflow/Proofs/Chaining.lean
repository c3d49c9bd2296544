import Workflow.Proofs.Attribution

/-! # Workflow.Proofs.Chaining

A queue within a task is a chain: each task behind another waits for it to succeed.

* `Exec.andThen`: one computation behind another.
* `drainWithin_append`, `drainWithin_push`: a queue, part by part.
-/

namespace Workflow

variable {σ : Domain}

/-- `y` behind `x`, if `x` succeeds. -/
def Exec.andThen (x y : Exec σ TaskResult) : Exec σ TaskResult := x >>= fun result =>
  match result with
  | .ok () => y
  | .error error => pure (.error error)

theorem Exec.andThen_assoc (x y z : Exec σ TaskResult) :
    (x.andThen y).andThen z = x.andThen (y.andThen z) := by
  simp only [andThen, bind_assoc]
  congr 1
  funext result
  cases result <;> rfl

section Within

variable {execute : Task σ → Exec σ TaskResult}

theorem drainWithin_nil : drainWithin execute ⟨[]⟩ = pure (.ok ()) := rfl

/-- What a queue within a task makes of the result of one of its tasks. -/
def TaskResult.charged (name : String) (result : TaskResult) : TaskResult :=
  result.mapError fun error => .execution (error.attributed name)

theorem drainWithin_cons (handle : Handle (Task σ)) (rest : List (Handle (Task σ))) :
    drainWithin execute ⟨handle :: rest⟩ =
      (Exec.emit (.taskStarted none handle.id handle.task.name) >>= fun _ =>
        execute handle.task >>= fun result =>
          pure (TaskResult.charged handle.task.name result)).andThen
        (drainWithin execute ⟨rest⟩) := by
  funext m
  simp only [Exec.andThen, Exec.bind_assoc, Exec.emit_bind]
  cases h : execute handle.task (m.logged (.taskStarted none handle.id handle.task.name)) with
  | finished result m₁ =>
    rw [Exec.bind_of_finished h]
    cases result with
    | ok =>
      show drainWithin execute ⟨handle :: rest⟩ m = drainWithin execute ⟨rest⟩ m₁
      unfold drainWithin
      simp only [Bind.bind, Exec.bind, drain_of_success _ h]
      cases drain execute .failFast none rest m₁ with
      | finished d m₂ =>
        obtain ⟨result, left⟩ := d
        cases result <;> rfl
      | blocked c m₂ => rfl
      | outOfFuel => rfl
    | error error =>
      unfold drainWithin
      rw [Exec.bind_of_finished (drain_of_error_failFast h)]
      rfl
  | blocked c m₁ =>
    rw [Exec.bind_of_blocked h]
    exact Exec.bind_of_blocked (Exec.bind_of_blocked h _) _
  | outOfFuel =>
    rw [Exec.bind_of_outOfFuel h]
    exact Exec.bind_of_outOfFuel (Exec.bind_of_outOfFuel h _) _

/-- The tasks that stand behind others wait for these to succeed. -/
theorem drainWithin_append (handles rest : List (Handle (Task σ))) :
    drainWithin execute ⟨handles ++ rest⟩ =
      (drainWithin execute ⟨handles⟩).andThen (drainWithin execute ⟨rest⟩) := by
  induction handles with
  | nil => rfl
  | cons handle handles ih =>
    rw [List.cons_append, drainWithin_cons, drainWithin_cons, ih, Exec.andThen_assoc]

/-- A task with no errors but failures passes its result on through the queue. -/
theorem drainWithin_singleton {handle : Handle (Task σ)}
    (h : ∀ {m m' : Machine σ} {error : TaskError},
      execute handle.task m = .finished (.error error) m' → ∃ failure, error = .execution failure) :
    drainWithin execute ⟨[handle]⟩ =
      Exec.emit (.taskStarted none handle.id handle.task.name) >>= fun _ =>
        execute handle.task := by
  funext m
  simp only [drainWithin_cons, drainWithin_nil, Exec.andThen, Exec.bind_assoc, Exec.emit_bind]
  cases hexec : execute handle.task (m.logged (.taskStarted none handle.id handle.task.name)) with
  | finished result m₁ =>
    rw [Exec.bind_of_finished hexec]
    cases result with
    | ok => rfl
    | error error =>
      obtain ⟨failure, rfl⟩ := h hexec
      rfl
  | blocked c m₁ => exact Exec.bind_of_blocked hexec _
  | outOfFuel => exact Exec.bind_of_outOfFuel hexec _

theorem drainWithin_push {handle : Handle (Task σ)}
    (h : ∀ {m m' : Machine σ} {error : TaskError},
      execute handle.task m = .finished (.error error) m' → ∃ failure, error = .execution failure)
    (queue : Queue (Task σ)) :
    drainWithin execute (queue.push handle) =
      (drainWithin execute queue).andThen
        (Exec.emit (.taskStarted none handle.id handle.task.name) >>= fun _ =>
          execute handle.task) := by
  rw [← drainWithin_singleton h]
  exact drainWithin_append queue.handles [handle]

end Within

end Workflow
