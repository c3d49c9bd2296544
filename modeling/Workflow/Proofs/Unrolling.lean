import Workflow.Proofs.Chaining
import Workflow.Proofs.Unread

/-! # Workflow.Proofs.Unrolling

A loop is a branch. Where the condition holds, the branch drains the body of the loop and then gives
out the loop itself, behind the body in one queue; otherwise it has nothing to do. Both come to the
same, but for three kinds of log records.

* `iterate_succ`, `execute_unrolled_succ`: a pass of the loop and the branch, equation by equation.
* `iterate_resembles`: where a loop starts to count is only seen in its last record.
* `loop_is_its_unrolling`: every loop without a limit over the tasks of a template.
-/

namespace Workflow

variable {σ : Domain}

theorem Exec.Extends.andThen {x x' y y' : Exec σ TaskResult} (hx : x.Extends x')
    (hy : y.Extends y') : (x.andThen y).Extends (x'.andThen y') := by
  refine hx.bind fun result => ?_
  cases result with
  | ok => exact hy
  | error error => exact .refl _

theorem Exec.Resembles.andThen {told : Event → Bool} {x x' y y' : Exec σ TaskResult}
    (hx : x.Resembles told x') (hy : y.Resembles told y') :
    (x.andThen y).Resembles told (x'.andThen y') := by
  refine hx.bind fun result => ?_
  cases result with
  | ok => exact hy
  | error error => exact (congruence_unread.pure _).resembles

namespace Task

/-- The loop without a limit over the tasks of a queue. -/
def whileLoop (condition : Condition σ) (body : Queue (Task σ)) : Task σ :=
  .loop condition none (.template body)

/-- The branch in place of the loop. -/
def unrolled (condition : Condition σ) (body : Queue (Task σ)) (id : TaskId)
    (otherwise : Factory σ (Task σ)) : Task σ :=
  .conditional condition (.template (body.push ⟨id, whileLoop condition body⟩)) otherwise

end Task

/-- All but the records of branches, of the ends of loops, and of the start of that task. -/
def Event.isBesideLoop (loop : TaskId) : Event → Bool
  | .branched _ | .loopFinished _ => false
  | .taskStarted _ id _ => id != loop
  | _ => true

section Pass

variable {execute execute' : Task σ → Exec σ TaskResult} {condition : Condition σ}
  {body : Queue (Task σ)} {id : TaskId} {otherwise : Factory σ (Task σ)}

theorem iterate_succ (iterations fuel : Nat) :
    iterate execute "loop" condition none (.template body) iterations (fuel + 1) =
      Exec.ask condition >>= fun holds =>
        if holds then
          (drainWithin execute body).andThen
            (iterate execute "loop" condition none (.template body) (iterations + 1) fuel)
        else Exec.emit (.loopFinished iterations) >>= fun _ => pure (.ok ()) := by
  rw [iterate]
  rfl

/-- The branch with `next` in the place of the loop. -/
def branchInto (execute : Task σ → Exec σ TaskResult) (condition : Condition σ)
    (body : Queue (Task σ)) (id : TaskId) (next : Exec σ TaskResult) : Exec σ TaskResult :=
  Exec.ask condition >>= fun holds => Exec.emit (.branched holds) >>= fun _ =>
    if holds then
      (drainWithin execute body).andThen
        (Exec.emit (.taskStarted none id "loop") >>= fun _ => next)
    else pure (.ok ())

theorem execute_unrolled_succ (hempty : ∀ m, otherwise.build m = .finished .empty m) (fuel : Nat) :
    (Task.unrolled condition body id otherwise).execute (fuel + 1) =
      branchInto (Task.execute fuel) condition body id
        ((Task.whileLoop condition body).execute fuel) := by
  have hbuild : otherwise.build = pure .empty := funext hempty
  have hloop : (Task.whileLoop condition body).IsControlFlow := trivial
  have hpush : drainWithin (Task.execute fuel) (body.push ⟨id, .whileLoop condition body⟩) =
      (drainWithin (Task.execute fuel) body).andThen
        (Exec.emit (.taskStarted none id "loop") >>= fun _ =>
          (Task.whileLoop condition body).execute fuel) :=
    drainWithin_push (fun h => hloop.error ⟨fuel, h⟩) body
  unfold branchInto
  simp only [Task.execute, Task.unrolled, Task.perform]
  congr 1
  funext holds
  congr 1
  funext _
  cases holds with
  | false =>
    simp only [Bool.false_eq_true, if_false, hbuild]
    rfl
  | true => exact hpush

theorem branchInto_extends (hexecute : ∀ t, (execute t).Extends (execute' t))
    {next next' : Exec σ TaskResult} (hnext : next.Extends next') :
    (branchInto execute condition body id next).Extends
      (branchInto execute' condition body id next') := by
  refine (Exec.Extends.refl _).bind fun holds => (Exec.Extends.refl _).bind fun _ => ?_
  cases holds with
  | false => exact .refl _
  | true =>
    exact .andThen (Exec.congruence_extends.drainWithin hexecute body)
      ((Exec.Extends.refl _).bind fun _ => hnext)

/-- Where a loop starts to count makes no difference but to the number that it ends with. -/
theorem iterate_resembles (k i j fuel : Nat) :
    (iterate (Task.execute k) "loop" condition none (.template body) i fuel).Resembles
      (Event.isBesideLoop id)
      (iterate (Task.execute k) "loop" condition none (.template body) j fuel) := by
  induction fuel generalizing i j with
  | zero => exact fun _ _ _ => .outOfFuel
  | succ fuel ih =>
    rw [iterate_succ, iterate_succ]
    refine (Exec.congruence_unread.ask condition).resembles.bind fun holds => ?_
    cases holds with
    | false => exact .emit_left rfl (.emit_right rfl (Exec.congruence_unread.pure _).resembles)
    | true => exact .andThen (drainWithin_unread k body).resembles (ih (i + 1) (j + 1))

theorem iterate_resembles_branchInto (k fuel : Nat) :
    (iterate (Task.execute k) "loop" condition none (.template body) 0 (fuel + 1)).Resembles
      (Event.isBesideLoop id)
      (branchInto (Task.execute k) condition body id
        (iterate (Task.execute k) "loop" condition none (.template body) 0 fuel)) := by
  rw [iterate_succ]
  refine (Exec.congruence_unread.ask condition).resembles.bind fun holds => .emit_right rfl ?_
  cases holds with
  | false => exact .emit_left rfl (Exec.congruence_unread.pure _).resembles
  | true =>
    have hgiven : Event.isBesideLoop id (.taskStarted none id "loop") = false := by
      simp [Event.isBesideLoop]
    exact .andThen (drainWithin_unread k body).resembles
      (.emit_right hgiven (iterate_resembles k 1 0 fuel))

end Pass

section Fuel

variable {condition : Condition σ} {body : Queue (Task σ)} {id : TaskId}
  {otherwise : Factory σ (Task σ)} {m : Machine σ}

/-- The loop, with as much fuel for its tasks as for its passes behind the first. -/
theorem comesTo_whileLoop_iff (o : Outcome σ TaskResult) :
    ComesTo (fun fuel => (Task.whileLoop condition body).execute fuel) m o ↔
      ComesTo (fun fuel => iterate (Task.execute fuel) "loop" condition none (.template body) 0
        (fuel + 1)) m o := by
  constructor
  · refine .of_extends fun fuel => ⟨fuel, ?_⟩
    cases fuel with
    | zero => exact fun _ h => absurd rfl h
    | succ fuel => exact iterate_extends _ _ _ _ _ (by omega) (by omega)
  · refine .of_extends fun fuel => ⟨fuel + 2, ?_⟩
    exact iterate_extends _ _ _ _ _ (by omega) (by omega)

/-- Likewise the branch. -/
theorem comesTo_unrolled_iff (hempty : ∀ m, otherwise.build m = .finished .empty m)
    (o : Outcome σ TaskResult) :
    ComesTo (fun fuel => (Task.unrolled condition body id otherwise).execute fuel) m o ↔
      ComesTo (fun fuel => branchInto (Task.execute fuel) condition body id
        (iterate (Task.execute fuel) "loop" condition none (.template body) 0 fuel)) m o := by
  constructor
  · refine .of_extends fun fuel => ⟨fuel, ?_⟩
    cases fuel with
    | zero => exact fun _ h => absurd rfl h
    | succ fuel =>
      rw [execute_unrolled_succ hempty]
      refine branchInto_extends (fun t => t.execute_rising _ _ (by omega)) ?_
      cases fuel with
      | zero => exact fun _ h => absurd rfl h
      | succ fuel => exact iterate_extends _ _ _ _ _ (by omega) (by omega)
  · refine .of_extends fun fuel => ⟨fuel + 2, ?_⟩
    rw [execute_unrolled_succ hempty]
    refine branchInto_extends (fun t => t.execute_rising _ _ (by omega)) ?_
    exact iterate_extends _ _ _ _ _ (by omega) (by omega)

end Fuel

/-- From every machine, a loop without a limit over the tasks of a template and the branch that
drains these tasks with the loop behind them come to the same: result, context, store and the state
of tasks and conditions, and the same is logged on the way, but for the records of the branch, of
the loop as a task of its queue and of the number of passes. Their errors are failures, which a
queue charges to the same task whichever of the two it holds. -/
theorem loop_is_its_unrolling (condition : Condition σ) (body : Queue (Task σ)) (id : TaskId)
    {otherwise : Factory σ (Task σ)} (hempty : ∀ m, otherwise.build m = .finished .empty m)
    (m : Machine σ) :
    let loop := Task.whileLoop condition body
    let unrolled := Task.unrolled condition body id otherwise
    ComeAlike (Event.isBesideLoop id) (fun fuel => loop.execute fuel)
        (fun fuel => unrolled.execute fuel) m ∧
      (∀ result, (∃ m', loop.Ends m result m') ↔ ∃ m', unrolled.Ends m result m') ∧
      ∀ error m', loop.Ends m (.error error) m' ∨ unrolled.Ends m (.error error) m' →
        ∃ failure, error = .execution failure ∧ error.attributed loop.name = failure ∧
          error.attributed unrolled.name = failure := by
  intro loop unrolled
  have halike : ComeAlike (Event.isBesideLoop id) (fun fuel => loop.execute fuel)
      (fun fuel => unrolled.execute fuel) m :=
    comeAlike_of_resembles comesTo_whileLoop_iff (comesTo_unrolled_iff hempty) fun fuel =>
      iterate_resembles_branchInto fuel fuel m m (.refl m)
  refine ⟨halike, halike.ends_iff, fun error m' h => ?_⟩
  have hloop : loop.IsControlFlow := trivial
  have hunrolled : unrolled.IsControlFlow := trivial
  obtain ⟨failure, rfl⟩ : ∃ failure, error = .execution failure := by
    rcases h with h | h
    · exact hloop.error h
    · exact hunrolled.error h
  exact ⟨failure, rfl, rfl, rfl⟩

/-- The failure of the second pass, in the loop and through the loop behind the first pass. -/
theorem wearing_fails_unrolled :
    let condition : Condition Nat := fun scope => ⟨true, scope.state, [.note "asked"]⟩
    let body : Queue (Task Nat) := ⟨[⟨⟨0⟩, wearing⟩]⟩
    let loop := Task.whileLoop condition body
    let unrolled := Task.unrolled condition body ⟨1⟩ (.builder fun state => (.empty, state))
    let charge := ExecutionError.taskFailed "wearing" (.plain "worn out")
    ComeAlike (Event.isBesideLoop ⟨1⟩) (fun fuel => loop.execute fuel)
        (fun fuel => unrolled.execute fuel) (wearingAt 0 []) ∧
      (∃ m', loop.Ends (wearingAt 0 []) (.error (.execution charge)) m') ∧
      (∃ m', unrolled.Ends (wearingAt 0 []) (.error (.execution charge)) m') ∧
      ∃ failure, TaskError.execution charge = .execution failure ∧
        TaskError.attributed loop.name (.execution charge) = failure ∧
        TaskError.attributed unrolled.name (.execution charge) = failure := by
  intro condition body loop unrolled charge
  have hempty : ∀ m : Machine Nat, (Factory.builder fun state => (.empty, state)).build m =
      .finished .empty m := fun _ => rfl
  obtain ⟨halike, hends, hcharge⟩ :=
    loop_is_its_unrolling condition body ⟨1⟩ hempty (wearingAt 0 [])
  obtain ⟨m', hloop⟩ : ∃ m', loop.Ends (wearingAt 0 []) (.error (.execution charge)) m' :=
    ⟨_, 5, rfl⟩
  exact ⟨halike, ⟨m', hloop⟩, (hends _).1 ⟨m', hloop⟩, hcharge _ m' (.inl hloop)⟩

end Workflow
