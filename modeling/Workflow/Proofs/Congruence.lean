import Workflow.Run

/-! # Workflow.Proofs.Congruence

One induction over the engine for all properties of its computations. `Compatible R` says that `R`
holds between any two computations that are put together in the same way from steps that `R` allows,
and `Congruence R` that locks may be taken and given back too; `CongruenceAt R id` says the same of
what a run does to the container `id` itself.

* `Compatible.executeContainer`, `Congruence.runContainer`: a run of the container.
* `Compatible.execute`: every task, from what calls of all containers do.
* `Congruence.execute`: every task, from what runs of all containers do. The second execution may
  have more fuel than the first.

A property of one computation is the case where `R` ignores its second argument.
-/

namespace Workflow
namespace Exec

variable {σ : Domain}

/-- `R` holds between the steps of the engine that work on no container's queues and on no lock, and
of two computations made of such steps. -/
structure Compatible (R : {α : Type} → Exec σ α → Exec σ α → Prop) : Prop where
  outOfFuel : ∀ {α : Type} (y : Exec σ α), R Exec.outOfFuel y
  pure : ∀ {α : Type} (a : α), R (pure a) (pure a)
  bind : ∀ {α β : Type} {x y : Exec σ α} {f g : α → Exec σ β},
    R x y → (∀ a, R (f a) (g a)) → R (x >>= f) (y >>= g)
  emit : ∀ e : Event, e.container? = none → R (emit e) (emit e)
  ask : ∀ {α : Type} (question : Scope σ → Answer σ α), R (ask question) (ask question)
  scope : R scope scope
  setScope : ∀ s, R (setScope s) (setScope s)
  swapContext : ∀ c, R (swapContext c) (swapContext c)
  modifyState : ∀ {α : Type} (f : σ → α × σ), R (modifyState f) (modifyState f)
  find : ∀ registry name, R (look (·.find? registry name)) (look (·.find? registry name))
  object : ∀ id, R (look (·.object? id)) (look (·.object? id))
  create : ∀ registry r, R (create registry r) (create registry r)
  inspect : ∀ id query, R (inspect id query) (inspect id query)
  addQueue : ∀ id queue, R (addQueue id queue) (addQueue id queue)

/-- Likewise with the steps that work on a lock. -/
structure Congruence (R : {α : Type} → Exec σ α → Exec σ α → Prop) : Prop extends Compatible R where
  lock : ∀ id, R (lock id) (lock id)
  unlock : ∀ id content, R (unlock id content) (unlock id content)

/-- `R` holds between the steps of a run of the container `id`. -/
structure CongruenceAt (R : {α : Type} → Exec σ α → Exec σ α → Prop) (id : ContainerId) : Prop where
  emit : ∀ e : Event, e.container? = some id → R (emit e) (emit e)
  name : R (look fun s => (s.container id).name) (look fun s => (s.container id).name)
  policy : R (look fun s => (s.container id).policy) (look fun s => (s.container id).policy)
  takeQueue : R (takeQueue id) (takeQueue id)
  returnQueue : ∀ queue, R (returnQueue id queue) (returnQueue id queue)

namespace Compatible

variable {R : {α : Type} → Exec σ α → Exec σ α → Prop}
variable {execute execute' : Task σ → Exec σ TaskResult}

theorem drain (hR : Compatible R) (hexec : ∀ t, R (execute t) (execute' t)) (policy : Policy)
    {origin : Option ContainerId}
    (hemit : ∀ id name, R (Exec.emit (.taskStarted origin id name))
      (Exec.emit (.taskStarted origin id name)))
    (handles : List (Handle (Task σ))) :
    R (drain execute policy origin handles) (drain execute' policy origin handles) := by
  induction handles with
  | nil => exact hR.pure _
  | cons handle rest ih =>
    simp only [Workflow.drain]
    refine hR.bind (hemit _ _) fun _ => hR.bind (hexec _) fun result => ?_
    cases result with
    | ok => exact hR.bind ih fun _ => hR.pure _
    | error error =>
      cases policy with
      | failFast => exact hR.pure _
      | keepGoing => exact hR.bind (hR.emit _ rfl) fun _ => hR.bind ih fun _ => hR.pure _

theorem drainWithin (hR : Compatible R) (hexec : ∀ t, R (execute t) (execute' t))
    (queue : Queue (Task σ)) : R (drainWithin execute queue) (drainWithin execute' queue) :=
  hR.bind (hR.drain hexec _ (fun _ _ => hR.emit _ rfl) _) fun _ => hR.pure _

/-! ## Containers -/

theorem drainContainer (hR : Compatible R) {id : ContainerId} (hid : CongruenceAt R id)
    (hexec : ∀ t, R (execute t) (execute' t)) {fuel fuel' : Nat} (hfuel : fuel ≤ fuel') :
    R (drainContainer execute id fuel) (drainContainer execute' id fuel') := by
  induction fuel generalizing fuel' with
  | zero => exact hR.outOfFuel _
  | succ fuel ih =>
    obtain ⟨more, rfl⟩ : ∃ more, fuel' = more + 1 := ⟨fuel' - 1, by omega⟩
    simp only [Workflow.drainContainer]
    refine hR.bind hid.takeQueue fun queue? => ?_
    cases queue? with
    | none => exact hR.pure _
    | some queue =>
      refine hR.bind hid.policy fun policy => ?_
      refine hR.bind (hR.drain hexec policy (fun _ _ => hid.emit _ rfl) _) fun drained => ?_
      cases drained.result with
      | ok summary => exact hR.bind (ih (by omega)) fun _ => hR.pure _
      | error failure => exact hR.bind (hid.returnQueue _) fun _ => hR.pure _

theorem executeContainer (hR : Compatible R) {id : ContainerId} (hid : CongruenceAt R id)
    (hexec : ∀ t, R (execute t) (execute' t)) {fuel fuel' : Nat} (hfuel : fuel ≤ fuel') :
    R (executeContainer execute fuel id) (executeContainer execute' fuel' id) := by
  refine hR.bind hid.name fun name => hR.bind (hid.emit _ rfl) fun _ => ?_
  refine hR.bind (hR.drainContainer hid hexec hfuel) fun result => ?_
  cases result with
  | ok summary => exact hR.bind (hid.emit _ rfl) fun _ => hR.pure _
  | error failure => exact hR.pure _

/-! ## Tasks -/

theorem program (hR : Compatible R) {κ ρ : Type} {call call' : κ → Exec σ RunResult}
    (hcall : ∀ request, R (call request) (call' request)) (p : Program σ (Task σ) κ ρ) :
    R (p.exec call) (p.exec call') := by
  induction p with
  | done result => exact hR.pure _
  | read next ih => exact hR.bind hR.scope ih
  | write scope next ih => exact hR.bind (hR.setScope _) fun _ => ih
  | remark r next ih => exact hR.bind (hR.emit _ rfl) fun _ => ih
  | find registry name next ih => exact hR.bind (hR.find _ _) ih
  | create registry registration next ih => exact hR.bind (hR.create _ _) ih
  | addQueue container queue next ih => exact hR.bind (hR.addQueue _ _) fun _ => ih
  | inspect container query next ih => exact hR.bind (hR.inspect _ _) ih
  | call request next ih => exact hR.bind (hcall _) ih

theorem performHook (hR : Compatible R) {α : Type} (hook : Hook σ α) :
    R (Task.performHook hook) (Task.performHook hook) :=
  hR.program (fun request => nomatch request) hook

theorem build (hR : Compatible R) (factory : Factory σ (Task σ)) :
    R factory.build factory.build := by
  cases factory with
  | template queue => exact hR.pure _
  | builder make => exact hR.modifyState _

theorem iterate (hR : Compatible R) (hexec : ∀ t, R (execute t) (execute' t)) (name : String)
    (condition : Condition σ) (limit : Option Nat) (body : Factory σ (Task σ)) (iterations : Nat)
    {fuel fuel' : Nat} (hfuel : fuel ≤ fuel') :
    R (iterate execute name condition limit body iterations fuel)
      (iterate execute' name condition limit body iterations fuel') := by
  induction fuel generalizing fuel' iterations with
  | zero => exact hR.outOfFuel _
  | succ fuel ih =>
    obtain ⟨more, rfl⟩ : ∃ more, fuel' = more + 1 := ⟨fuel' - 1, by omega⟩
    simp only [Workflow.iterate]
    refine hR.bind (hR.ask condition) fun holds => ?_
    cases holds with
    | false => exact hR.bind (hR.emit _ rfl) fun _ => hR.pure _
    | true =>
      simp only [if_true]
      cases limit.filter (· ≤ iterations) with
      | some limit => exact hR.pure _
      | none =>
        refine hR.bind (hR.build body) fun queue => hR.bind (hR.drainWithin hexec queue) fun r => ?_
        cases r with
        | ok => exact ih _ (by omega)
        | error error => exact hR.pure _

theorem perform (hR : Compatible R) (hexec : ∀ t, R (execute t) (execute' t)) {fuel fuel' : Nat}
    (hfuel : fuel ≤ fuel')
    (hanswer : ∀ request : Call, R (request.answer execute fuel) (request.answer execute' fuel'))
    (task : Task σ) : R (task.perform execute fuel) (task.perform execute' fuel') := by
  cases task with
  | leaf name body => exact hR.bind (hR.emit _ rfl) fun _ => hR.program hanswer body
  | conditional condition thenQueue elseQueue =>
    refine hR.bind (hR.ask condition) fun holds => hR.bind (hR.emit _ rfl) fun _ => ?_
    exact hR.bind (hR.build _) fun queue => hR.drainWithin hexec queue
  | loop condition limit body => exact hR.iterate hexec _ condition limit body 0 hfuel
  | switch s =>
    refine hR.bind (hR.ask s.selector) fun key => ?_
    rcases hchoice : s.choose key with ⟨event, queue?⟩
    have hevent : event.container? = none := by
      have := s.choose_container? key
      rwa [hchoice] at this
    simp only
    refine hR.bind (hR.emit event hevent) fun _ => ?_
    cases queue? with
    | none => exact hR.pure _
    | some queue => exact hR.drainWithin hexec queue
  | aspect inner before after =>
    have hbefore : R (Task.opens before) (Task.opens before) := by
      cases before with
      | none => exact hR.pure _
      | some hook => exact hR.performHook hook
    refine hR.bind hbefore fun isOpen => ?_
    cases isOpen with
    | false => exact hR.bind (hR.emit _ rfl) fun _ => hR.pure _
    | true =>
      refine hR.bind (hexec inner) fun result => ?_
      cases result with
      | error error => exact hR.pure _
      | ok =>
        cases after with
        | none => exact hR.pure _
        | some hook => exact hR.bind (hR.performHook hook) fun _ => hR.pure _
  | shared inner => exact hexec inner
  | reference r =>
    refine hR.bind (hR.object r.id) fun task? => ?_
    cases task? with
    | none => exact hR.pure _
    | some task => exact hexec task

end Compatible

/-- Every task, by induction on the fuel, from what calls of all containers do. -/
theorem Compatible.execute {R : {α : Type} → Exec σ α → Exec σ α → Prop} (hR : Compatible R)
    (hanswer : ∀ (fuel fuel' : Nat) (execute execute' : Task σ → Exec σ TaskResult),
      fuel ≤ fuel' → (∀ t, R (execute t) (execute' t)) →
        ∀ request : Call, R (request.answer execute fuel) (request.answer execute' fuel'))
    {fuel fuel' : Nat} (hfuel : fuel ≤ fuel') (task : Task σ) :
    R (task.execute fuel) (task.execute fuel') := by
  induction fuel generalizing fuel' task with
  | zero => exact hR.outOfFuel _
  | succ fuel ih =>
    obtain ⟨more, rfl⟩ : ∃ more, fuel' = more + 1 := ⟨fuel' - 1, by omega⟩
    have hexec : ∀ t : Task σ, R (t.execute fuel) (t.execute more) := ih (by omega)
    exact hR.perform hexec (by omega) (hanswer _ _ _ _ (by omega) hexec) task

namespace Congruence

variable {R : {α : Type} → Exec σ α → Exec σ α → Prop}
variable {execute execute' : Task σ → Exec σ TaskResult}

theorem runContainer (hR : Congruence R) {fuel fuel' : Nat} {id : ContainerId}
    (hrun : R (Workflow.executeContainer execute fuel id)
      (Workflow.executeContainer execute' fuel' id)) :
    R (runContainer execute fuel id) (runContainer execute' fuel' id) :=
  hR.bind (hR.lock id) fun content => hR.bind (hR.swapContext content) fun _ =>
    hR.bind hrun fun _ => hR.bind (hR.swapContext _) fun final =>
      hR.bind (hR.unlock id final) fun _ => hR.pure _

theorem answer (hR : Congruence R) {fuel fuel' : Nat}
    (hrun : ∀ id, R (Workflow.executeContainer execute fuel id)
      (Workflow.executeContainer execute' fuel' id)) (request : Call) :
    R (request.answer execute fuel) (request.answer execute' fuel') := by
  cases request with
  | execute id => exact hrun id
  | run id => exact hR.runContainer (hrun id)

end Congruence

/-- Every task, from what a run of any container does. -/
theorem Congruence.execute {R : {α : Type} → Exec σ α → Exec σ α → Prop} (hR : Congruence R)
    (hrun : ∀ (id : ContainerId) (fuel fuel' : Nat) (execute execute' : Task σ → Exec σ TaskResult),
      fuel ≤ fuel' → (∀ t, R (execute t) (execute' t)) →
        R (Workflow.executeContainer execute fuel id) (Workflow.executeContainer execute' fuel' id))
    {fuel fuel' : Nat} (hfuel : fuel ≤ fuel') (task : Task σ) :
    R (task.execute fuel) (task.execute fuel') :=
  hR.toCompatible.execute
    (fun _ _ _ _ hle hexec => hR.answer fun id => hrun id _ _ _ _ hle hexec) hfuel task

end Exec
end Workflow
