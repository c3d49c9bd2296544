import Workflow.Proofs.Container.Settle

/-! # Workflow.Proofs.Confined

Tasks that use nothing but their scope, and of the scope only what a relation lets them see. Given
related scopes, a confined task comes to the same result and leaves related scopes behind, and it
does nothing else.

* `Task.Confined`: the tasks. They make no requests besides reading and writing the scope and saying
  things, and all that they ask and build from the scope respects the relation.
* `Task.Confined.carries`: executing a confined task.
* `executeContainer_carries`: draining a container whose tasks are confined. It changes the queues
  of the container and nothing else in the store.

With equality and a part of the scope held fixed for the relation, the same says that the tasks
leave that part alone.
-/

namespace Workflow

variable {σ : Domain} {α β : Type}

/-! ## Confined tasks -/

/-- Programs that say the same, read related scopes and write related scopes. -/
inductive Program.Related (R : Scope σ → Scope σ → Prop) {κ ρ : Type} :
    Program σ (Task σ) κ ρ → Program σ (Task σ) κ ρ → Prop where
  | done (result : ρ) : Related R (.done result) (.done result)
  | read {next next' : Scope σ → Program σ (Task σ) κ ρ} :
      (∀ s s', R s s' → Related R (next s) (next' s')) → Related R (.read next) (.read next')
  | write {s s' : Scope σ} {p p' : Program σ (Task σ) κ ρ} :
      R s s' → Related R p p' → Related R (.write s p) (.write s' p')
  | remark (r : Remark) {p p' : Program σ (Task σ) κ ρ} :
      Related R p p' → Related R (.remark r p) (.remark r p')

/-- Asked about related scopes, the question has one answer and leaves related scopes. -/
def Respects (R : Scope σ → Scope σ → Prop) (question : Scope σ → Answer σ α) : Prop :=
  ∀ s s', R s s' → (question s).value = (question s').value ∧
    R { s with state := (question s).state } { s' with state := (question s').state }

namespace Factory

/-- Likewise what a builder makes. -/
def Respects (R : Scope σ → Scope σ → Prop) : Factory σ (Task σ) → Prop
  | .template _ => True
  | .builder make => ∀ s s', R s s' → (make s.state).1 = (make s'.state).1 ∧
      R { s with state := (make s.state).2 } { s' with state := (make s'.state).2 }

/-- The queue is one that the factory can come to give. -/
def Gives : Factory σ (Task σ) → Queue (Task σ) → Prop
  | .template q, queue => queue = q
  | .builder make, queue => ∃ state, queue = (make state).1

theorem gives_of_build {factory : Factory σ (Task σ)} {queue : Queue (Task σ)} {m m' : Machine σ}
    (h : factory.build m = .finished queue m') : factory.Gives queue := by
  cases factory with
  | template q =>
    cases h
    rfl
  | builder make =>
    cases h
    exact ⟨_, rfl⟩

end Factory

/-- All that the task does respects the relation, and so do the tasks below it. The objects that it
refers to are among those that are known. -/
inductive Task.Confined (R : Scope σ → Scope σ → Prop) (known : TaskId → Prop) :
    Task σ → Prop where
  | leaf {name : String} {body : Leaf σ TaskResult} :
      body.Related R body → Confined R known (.leaf name body)
  | conditional {condition : Condition σ} {thenQueue elseQueue : Factory σ (Task σ)} :
      Respects R condition → (∀ holds : Bool, (if holds then thenQueue else elseQueue).Respects R) →
      (∀ (holds : Bool) queue, (if holds then thenQueue else elseQueue).Gives queue →
        ∀ handle ∈ queue.handles, Confined R known handle.task) →
      Confined R known (.conditional condition thenQueue elseQueue)
  | loop {condition : Condition σ} {limit : Option Nat} {body : Factory σ (Task σ)} :
      Respects R condition → body.Respects R →
      (∀ queue, body.Gives queue → ∀ handle ∈ queue.handles, Confined R known handle.task) →
      Confined R known (.loop condition limit body)
  | switch {s : Switch σ (Task σ)} :
      Respects R s.selector →
      (∀ key event queue, s.choose key = (event, some queue) →
        ∀ handle ∈ queue.handles, Confined R known handle.task) →
      Confined R known (.switch s)
  | aspect {inner : Task σ} {before : Option (Hook σ Bool)} {after : Option (Hook σ Unit)} :
      Confined R known inner → (∀ hook ∈ before, hook.Related R hook) →
      (∀ hook ∈ after, hook.Related R hook) → Confined R known (.aspect inner before after)
  | shared {inner : Task σ} : Confined R known inner → Confined R known (.shared inner)
  | reference {r : Reference} : known r.id → Confined R known (.reference r)

/-! ## Computations -/

/-- The scopes are related, and the same confined tasks are known. -/
structure Mirrors (R : Scope σ → Scope σ → Prop) (known : TaskId → Prop) (m m' : Machine σ) :
    Prop where
  scope : R m.toScope m'.toScope
  objects : m.store.objects = m'.store.objects
  confined : ∀ {id t}, known id → m.store.object? id = some t → t.Confined R known

theorem Mirrors.object? {R : Scope σ → Scope σ → Prop} {known : TaskId → Prop} {m m' : Machine σ}
    (h : Mirrors R known m m') (id : TaskId) : m.store.object? id = m'.store.object? id := by
  simp only [Store.object?, h.objects]

theorem Mirrors.of_store {R : Scope σ → Scope σ → Prop} {known : TaskId → Prop}
    {m m' m₁ m₁' : Machine σ} (h : Mirrors R known m m') (hscope : R m₁.toScope m₁'.toScope)
    (hstore : m₁.store = m.store) (hstore' : m₁'.store = m'.store) : Mirrors R known m₁ m₁' := by
  refine ⟨hscope, ?_, ?_⟩
  · rw [hstore, hstore']
    exact h.objects
  · rw [hstore]
    exact h.confined

/-- Where `x` comes to its end, `y` comes to its end from any machine that mirrors, with the same
value and a related scope. Neither has touched the store. -/
def Exec.Carries (R : Scope σ → Scope σ → Prop) (known : TaskId → Prop) (x y : Exec σ α) : Prop :=
  ∀ (m m' : Machine σ) (v : α) (m₁ : Machine σ), Mirrors R known m m' → x m = .finished v m₁ →
    ∃ m₁', y m' = .finished v m₁' ∧ R m₁.toScope m₁'.toScope ∧
      m₁.store = m.store ∧ m₁'.store = m'.store

namespace Exec.Carries

variable {R : Scope σ → Scope σ → Prop} {known : TaskId → Prop}
variable {execute : Task σ → Exec σ TaskResult}

theorem pure (v : α) : Carries R known (pure v : Exec σ α) (pure v) := by
  intro m m' w m₁ hm h
  cases h
  exact ⟨m', rfl, hm.scope, rfl, rfl⟩

/-- What follows needs to be shown for the values only that the first part can come to. -/
theorem bind_of_value {x y : Exec σ α} {f g : α → Exec σ β} (hx : Carries R known x y)
    (hf : ∀ a m m', x m = .finished a m' → Carries R known (f a) (g a)) :
    Carries R known (x >>= f) (y >>= g) := by
  intro m m' v m₂ hm h
  obtain ⟨a, m₁, h₁, h₂⟩ := finished_of_bind h
  obtain ⟨m₁', h₁', hscope, hstore, hstore'⟩ := hx m m' a m₁ hm h₁
  obtain ⟨m₂', h₂', hscope₂, hstore₂, hstore₂'⟩ :=
    hf a m m₁ h₁ m₁ m₁' v m₂ (hm.of_store hscope hstore hstore') h₂
  exact ⟨m₂', (bind_of_finished h₁').trans h₂', hscope₂, hstore₂.trans hstore,
    hstore₂'.trans hstore'⟩

theorem bind {x y : Exec σ α} {f g : α → Exec σ β} (hx : Carries R known x y)
    (hf : ∀ a, Carries R known (f a) (g a)) : Carries R known (x >>= f) (y >>= g) :=
  bind_of_value hx fun a _ _ _ => hf a

theorem emit (event : Event) : Carries R known (emit (σ := σ) event) (emit event) := by
  intro m m' v m₁ hm h
  cases h
  exact ⟨_, rfl, hm.scope, rfl, rfl⟩

theorem outOfFuel (y : Exec σ α) : Carries R known Exec.outOfFuel y := by
  intro m m' v m₁ hm h
  cases h

theorem ask {question : Scope σ → Answer σ α} (h : Respects R question) :
    Carries R known (ask question) (ask question) := by
  intro m m' v m₁ hm hx
  cases hx
  obtain ⟨hvalue, hstate⟩ := h _ _ hm.scope
  refine ⟨{ m' with
    state := (question m'.toScope).state
    log := (question m'.toScope).remarks.foldl (fun log r => log.push (.remark r)) m'.log },
    ?_, hstate, rfl, rfl⟩
  rw [hvalue]
  rfl

theorem build {factory : Factory σ (Task σ)} (h : factory.Respects R) :
    Carries R known factory.build factory.build := by
  cases factory with
  | template queue => exact pure queue
  | builder make =>
    intro m m' v m₁ hm hx
    cases hx
    obtain ⟨hqueue, hstate⟩ := h _ _ hm.scope
    refine ⟨{ m' with state := (make m'.state).2 }, ?_, hstate, rfl, rfl⟩
    rw [hqueue]
    rfl

theorem bind_build {factory : Factory σ (Task σ)} (h : factory.Respects R)
    {f : Queue (Task σ) → Exec σ α}
    (hf : ∀ queue, factory.Gives queue → Carries R known (f queue) (f queue)) :
    Carries R known (factory.build >>= f) (factory.build >>= f) :=
  bind_of_value (build h) fun queue _ _ hbuild => hf queue (Factory.gives_of_build hbuild)

theorem program {κ ρ : Type} {call : κ → Exec σ RunResult} {p p' : Program σ (Task σ) κ ρ}
    (h : p.Related R p') : Carries R known (p.exec call) (p'.exec call) := by
  induction h with
  | done result => exact pure result
  | read _ ih =>
    -- The two read different scopes, and go on with them.
    intro m m' v m₁ hm h
    exact ih _ _ hm.scope m m' v m₁ hm h
  | write hscope _ ih =>
    refine bind (fun m m' v m₁ hm h => ?_) fun _ => ih
    cases h
    exact ⟨_, rfl, hscope, rfl, rfl⟩
  | remark r _ ih => exact bind (emit _) fun _ => ih

theorem drain (hexec : ∀ t, t.Confined R known → Carries R known (execute t) (execute t))
    (policy : Policy) (origin : Option ContainerId) {handles : List (Handle (Task σ))}
    (hhandles : ∀ handle ∈ handles, handle.task.Confined R known) :
    Carries R known (drain execute policy origin handles)
      (drain execute policy origin handles) := by
  induction handles with
  | nil => exact pure _
  | cons handle rest ih =>
    have ih := ih fun handle hmem => hhandles handle (List.mem_cons_of_mem _ hmem)
    simp only [Workflow.drain]
    refine bind (emit _) fun _ => bind (hexec _ (hhandles _ List.mem_cons_self)) fun result => ?_
    cases result with
    | ok => exact bind ih fun _ => pure _
    | error error =>
      cases policy with
      | failFast => exact pure _
      | keepGoing => exact bind (emit _) fun _ => bind ih fun _ => pure _

theorem drainWithin (hexec : ∀ t, t.Confined R known → Carries R known (execute t) (execute t))
    {queue : Queue (Task σ)} (hqueue : ∀ handle ∈ queue.handles, handle.task.Confined R known) :
    Carries R known (drainWithin execute queue) (drainWithin execute queue) :=
  bind (drain hexec _ _ hqueue) fun _ => pure _

theorem iterate (hexec : ∀ t, t.Confined R known → Carries R known (execute t) (execute t))
    (name : String) {condition : Condition σ} (limit : Option Nat) {body : Factory σ (Task σ)}
    (hcondition : Respects R condition) (hbody : body.Respects R)
    (hqueues : ∀ queue, body.Gives queue →
      ∀ handle ∈ queue.handles, handle.task.Confined R known) (iterations fuel : Nat) :
    Carries R known (iterate execute name condition limit body iterations fuel)
      (iterate execute name condition limit body iterations fuel) := by
  induction fuel generalizing iterations with
  | zero => exact outOfFuel _
  | succ fuel ih =>
    simp only [Workflow.iterate]
    refine bind (ask hcondition) fun holds => ?_
    cases holds with
    | false => exact bind (emit _) fun _ => pure _
    | true =>
      simp only [if_true]
      cases limit.filter (· ≤ iterations) with
      | some limit => exact pure _
      | none =>
        refine bind_build hbody fun queue hqueue => ?_
        refine bind (drainWithin hexec (hqueues queue hqueue)) fun result => ?_
        cases result with
        | ok => exact ih _
        | error error => exact pure _

/-- One task, from the tasks below it. -/
theorem perform (hexec : ∀ t, t.Confined R known → Carries R known (execute t) (execute t))
    (fuel : Nat) {t : Task σ} (h : t.Confined R known) :
    Carries R known (t.perform execute fuel) (t.perform execute fuel) := by
  cases h with
  | leaf hbody => exact bind (emit _) fun _ => program hbody
  | conditional hcondition hrespects hqueues =>
    refine bind (ask hcondition) fun holds => bind (emit _) fun _ => ?_
    exact bind_build (hrespects holds) fun queue hqueue =>
      drainWithin hexec (hqueues holds queue hqueue)
  | loop hcondition hbody hqueues =>
    exact iterate hexec _ _ hcondition hbody hqueues 0 fuel
  | @switch s hselector hqueues =>
    refine bind (ask hselector) fun key => ?_
    rcases hchoice : s.choose key with ⟨event, queue?⟩
    refine bind (emit event) fun _ => ?_
    cases queue? with
    | none => exact pure _
    | some queue => exact drainWithin hexec (hqueues key event queue hchoice)
  | @aspect inner before after hinner hbefore hafter =>
    have hopens : Carries R known (Task.opens before) (Task.opens before) := by
      cases before with
      | none => exact pure _
      | some hook => exact program (hbefore hook rfl)
    refine bind hopens fun isOpen => ?_
    cases isOpen with
    | false => exact bind (emit _) fun _ => pure _
    | true =>
      refine bind (hexec inner hinner) fun result => ?_
      cases result with
      | error error => exact pure _
      | ok =>
        cases after with
        | none => exact pure _
        | some hook => exact bind (program (hafter hook rfl)) fun _ => pure _
  | shared hinner => exact hexec _ hinner
  | @reference r hknown =>
    intro m m' v m₁ hm h
    have hobject := hm.object? r.id
    simp only [Task.perform] at h ⊢
    rw [Exec.look_bind] at h ⊢
    rw [← hobject]
    cases hfound : m.store.object? r.id with
    | none =>
      rw [hfound] at h
      exact pure _ m m' v m₁ hm h
    | some t =>
      rw [hfound] at h
      exact hexec t (hm.confined hknown hfound) m m' v m₁ hm h

end Exec.Carries

theorem Task.Confined.carries {R : Scope σ → Scope σ → Prop} {known : TaskId → Prop} {t : Task σ}
    (h : t.Confined R known) (fuel : Nat) :
    Exec.Carries R known (t.execute fuel) (t.execute fuel) := by
  induction fuel generalizing t with
  | zero => exact .outOfFuel _
  | succ fuel ih => exact .perform (fun _ ht => ih ht) fuel h

/-! ## Containers -/

/-- What draining leaves was there before. -/
theorem mem_of_mem_rest {execute : Task σ → Exec σ TaskResult} {policy : Policy}
    {origin : Option ContainerId} {hand : List (Handle (Task σ))} {m m' : Machine σ} {d : Drained σ}
    (h : drain execute policy origin hand m = .finished d m') {handle : Handle (Task σ)}
    (hmem : handle ∈ d.rest.handles) : handle ∈ hand := by
  induction hand generalizing m d with
  | nil =>
    cases h
    cases hmem
  | cons first rest ih =>
    obtain ⟨result, m₁, -, ⟨failure, -, rfl, -⟩ | ⟨m₂, d', s, -, hrest, rfl⟩⟩ := drain_cons_cases h
    · exact List.mem_cons_of_mem _ hmem
    · exact List.mem_cons_of_mem _ (ih hrest hmem)

/-- The container is the same in both machines, and its tasks are confined. -/
structure MirrorsAt (R : Scope σ → Scope σ → Prop) (known : TaskId → Prop) (id : ContainerId)
    (m m' : Machine σ) : Prop extends Mirrors R known m m' where
  has : m.store.Has id
  has' : m'.store.Has id
  container : m.store.container id = m'.store.container id
  handles : ∀ handle ∈ (m.store.container id).handles, handle.task.Confined R known

/-- Where `x` comes to its end, it comes to the same end from any machine that mirrors, and the same
queues are then in the container, with tasks that were there before. Nothing else in the store has
changed. -/
def Exec.CarriesAt (R : Scope σ → Scope σ → Prop) (known : TaskId → Prop) (id : ContainerId)
    (x : Exec σ RunResult) : Prop :=
  ∀ (m m' : Machine σ) (r : RunResult) (m₁ : Machine σ), MirrorsAt R known id m m' →
    x m = .finished r m₁ → ∃ queues m₁', x m' = .finished r m₁' ∧ R m₁.toScope m₁'.toScope ∧
      queues.flatMap Queue.handles ⊆ (m.store.container id).handles ∧
      m₁.store = (m.withQueues id queues).store ∧ m₁'.store = (m'.withQueues id queues).store

section Container

variable {R : Scope σ → Scope σ → Prop} {known : TaskId → Prop} {id : ContainerId}
  {execute : Task σ → Exec σ TaskResult} {m m' m₁ m₁' : Machine σ}
  {queues : List (Queue (Task σ))}

theorem Machine.withQueues_container (hid : m.store.Has id) :
    (m.withQueues id queues).store.container id = { m.store.container id with queues } :=
  Store.container_modifyContainer_self hid _

theorem MirrorsAt.of_store (h : MirrorsAt R known id m m') (hscope : R m₁.toScope m₁'.toScope)
    (hqueues : queues.flatMap Queue.handles ⊆ (m.store.container id).handles)
    (hstore : m₁.store = (m.withQueues id queues).store)
    (hstore' : m₁'.store = (m'.withQueues id queues).store) : MirrorsAt R known id m₁ m₁' := by
  have hcontainer : (m.withQueues id queues).store.container id =
      { m.store.container id with queues } := Machine.withQueues_container h.has
  refine ⟨⟨hscope, ?_, ?_⟩, ?_, ?_, ?_, ?_⟩
  · rw [hstore, hstore']
    exact h.objects
  · rw [hstore]
    exact h.confined
  · rw [hstore]
    exact Store.has_modifyContainer.2 h.has
  · rw [hstore']
    exact Store.has_modifyContainer.2 h.has'
  · rw [hstore, hstore', hcontainer, h.container, Machine.withQueues_container h.has']
  · rw [hstore, hcontainer]
    exact fun handle hmem => h.handles handle (hqueues hmem)

theorem Machine.withQueues_store (hstore : m₁.store = (m.withQueues id queues).store)
    (left : List (Queue (Task σ))) :
    (m₁.withQueues id left).store = (m.withQueues id left).store := by
  rw [withQueues, hstore]
  exact Store.modifyContainer_twice _ _ _ _

/-- Putting a queue back changes the queues. -/
theorem Machine.returnQueue_store (hstore : m₁.store = (m.withQueues id queues).store)
    (queue : Queue (Task σ)) : m₁.store.returnQueue id queue =
      (m.withQueues id (if queue.isEmpty then queues else queue :: queues)).store := by
  unfold Store.returnQueue
  cases queue.isEmpty with
  | true => exact hstore
  | false =>
    rw [hstore]
    exact Store.modifyContainer_twice _ _ _ _

/-- The same queue comes first on both sides, and without it the two are alike still. -/
theorem MirrorsAt.take {queue : Queue (Task σ)} {rest : List (Queue (Task σ))}
    (hm : MirrorsAt R known id m m') (hqueues : (m.store.container id).queues = queue :: rest) :
    (m'.store.container id).queues = queue :: rest ∧
      queue.handles ⊆ (m.store.container id).handles ∧
      rest.flatMap Queue.handles ⊆ (m.store.container id).handles ∧
      MirrorsAt R known id (m.withQueues id rest) (m'.withQueues id rest) := by
  have hhandles : (m.store.container id).handles =
      queue.handles ++ rest.flatMap Queue.handles := by
    rw [Container.handles, hqueues, List.flatMap_cons]
  have hrest : rest.flatMap Queue.handles ⊆ (m.store.container id).handles := by
    rw [hhandles]
    exact List.subset_append_right ..
  refine ⟨by rw [← hm.container, hqueues], ?_, hrest, hm.of_store hm.scope hrest rfl rfl⟩
  rw [hhandles]
  exact List.subset_append_left ..

theorem drainContainer_carries
    (hexec : ∀ t, t.Confined R known → Exec.Carries R known (execute t) (execute t)) (fuel : Nat) :
    Exec.CarriesAt R known id (drainContainer execute id fuel) := by
  induction fuel with
  | zero =>
    intro m m' r m₁ _ h
    cases h
  | succ fuel ih =>
    intro m m' r m₁ hm h
    cases hqueues : (m.store.container id).queues with
    | nil =>
      have hqueues' : (m'.store.container id).queues = [] := by rw [← hm.container, hqueues]
      rw [drainContainer_of_nil hqueues] at h
      cases h
      refine ⟨[], m', drainContainer_of_nil hqueues' fuel, hm.scope, List.nil_subset _, ?_, ?_⟩
      · rw [Machine.withQueues, Store.modifyContainer_eq_self hm.has (by rw [← hqueues])]
      · rw [Machine.withQueues, Store.modifyContainer_eq_self hm.has' (by rw [← hqueues'])]
    | cons queue rest =>
      obtain ⟨hqueues', hqueue, hrest, htaken⟩ := hm.take hqueues
      rw [drainContainer_of_cons hm.has hqueues, settle] at h
      rw [drainContainer_of_cons hm.has' hqueues', settle, ← hm.container]
      obtain ⟨d, m₂, hdrain, h⟩ := Exec.finished_of_bind h
      obtain ⟨m₂', hdrain', hscope, hstore, hstore'⟩ :=
        Exec.Carries.drain hexec _ _ (fun handle hmem => hm.handles handle (hqueue hmem)) _ _ _ _
          htaken.toMirrors hdrain
      rw [Exec.bind_of_finished hdrain']
      cases hresult : d.result with
      | ok summary =>
        simp only [hresult] at h ⊢
        obtain ⟨r', m₃, hwaiting, h⟩ := Exec.finished_of_bind h
        cases h
        have hm₂ := hm.of_store hscope hrest hstore hstore'
        obtain ⟨left, m₃', hwaiting', hscope₃, hleft, hstore₃, hstore₃'⟩ := ih _ _ _ _ hm₂ hwaiting
        refine ⟨left, m₃', Exec.bind_of_finished hwaiting', hscope₃, fun handle hmem => ?_,
          hstore₃.trans (Machine.withQueues_store hstore left),
          hstore₃'.trans (Machine.withQueues_store hstore' left)⟩
        have hmem := hleft hmem
        rw [hstore, Machine.withQueues_container hm.has] at hmem
        exact hrest hmem
      | error failure =>
        simp only [hresult] at h ⊢
        cases h
        refine ⟨if d.rest.isEmpty then rest else d.rest :: rest, _, rfl, hscope, ?_,
          Machine.returnQueue_store hstore _, Machine.returnQueue_store hstore' _⟩
        cases d.rest.isEmpty with
        | true => exact hrest
        | false =>
          intro handle hmem
          rcases List.mem_append.1 hmem with hmem | hmem
          · exact hqueue (mem_of_mem_rest hdrain hmem)
          · exact hrest hmem

theorem executeContainer_carries
    (hexec : ∀ t, t.Confined R known → Exec.Carries R known (execute t) (execute t)) (fuel : Nat) :
    Exec.CarriesAt R known id (executeContainer execute fuel id) := by
  intro m m' r m₁ hm h
  obtain ⟨m₂, hdrain, rfl⟩ := drained_of_executeContainer h
  have hentered : MirrorsAt R known id (m.entered id) (m'.entered id) :=
    ⟨⟨hm.scope, hm.objects, hm.confined⟩, hm.has, hm.has', hm.container, hm.handles⟩
  obtain ⟨queues, m₂', hdrain', hscope, hqueues, hstore, hstore'⟩ :=
    drainContainer_carries hexec fuel _ _ _ _ hentered hdrain
  exact ⟨queues, _, executeContainer_of_drained hdrain', hscope, hqueues, hstore, hstore'⟩

end Container
end Workflow
