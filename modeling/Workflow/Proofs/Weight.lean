import Mathlib
import Workflow.Proofs.Confined
import Workflow.Proofs.Fuel

/-! # Workflow.Proofs.Weight

Limits guarantee termination. A task whose loops all have a limit comes to its end, from whatever
context and state and whatever its conditions answer, and on the way it starts at most as many
leaves as it weighs.

* `Task.weight`: one for a leaf, the sum over a queue, the largest branch or case, and for a loop
  the weight of its body as many times as the limit allows passes.
* `Task.Limited`: every loop has a limit, no leaf makes a call, and what a factory gives weighs the
  same each time.
* `EndsWithin`: a computation that comes to its end with so many leaves at most; one lemma for each
  way of putting computations together, `EndsWithin.iterate` for the passes of a loop.
* `limited_ends_within_weight`: tasks, and queues under either policy.
-/

namespace Workflow

variable {σ : Domain} {α β : Type}

/-! ## Weights -/

section Weight

variable (state : σ) (known : TaskId → Nat)

mutual

/-- How many leaves an execution of the task starts at most. Builders are looked at as they build in
that state, and `known` are the weights of the objects that are referred to. -/
def Task.weight : Task σ → Nat
  | .leaf _ _ => 1
  | .conditional _ thenQueue elseQueue => max thenQueue.weight elseQueue.weight
  | .loop _ limit body => limit.getD 0 * body.weight
  | .switch ⟨_, cases, none⟩ => casesWeight cases
  | .switch ⟨_, cases, some ⟨handles⟩⟩ => max (casesWeight cases) (handlesWeight handles)
  | .aspect inner _ _ => inner.weight
  | .shared inner => inner.weight
  | .reference r => known r.id

def Factory.weight : Factory σ (Task σ) → Nat
  | .template ⟨handles⟩ => handlesWeight handles
  | .builder make => builtWeight (make state)

def builtWeight : Queue (Task σ) × σ → Nat
  | (⟨handles⟩, _) => handlesWeight handles

def handlesWeight : List (Handle (Task σ)) → Nat
  | [] => 0
  | ⟨_, task⟩ :: rest => task.weight + handlesWeight rest

def casesWeight : List (σ.Key × Queue (Task σ)) → Nat
  | [] => 0
  | (_, ⟨handles⟩) :: rest => max (handlesWeight handles) (casesWeight rest)

end

def Queue.weight (queue : Queue (Task σ)) : Nat := handlesWeight state known queue.handles

/-- The case that is chosen is one of the cases that the largest was taken of. -/
theorem Switch.weight_le_of_choose {s : Switch σ (Task σ)} {key : σ.Key} {event : Event}
    {queue : Queue (Task σ)} (h : s.choose key = (event, some queue)) :
    queue.weight state known ≤ (Task.switch s).weight state known := by
  have hcases : ∀ cases : List (σ.Key × Queue (Task σ)), cases.lookup key = some queue →
      queue.weight state known ≤ casesWeight state known cases := by
    intro cases hlookup
    induction cases with
    | nil => cases hlookup
    | cons first rest ih =>
      obtain ⟨k, q⟩ := first
      simp only [casesWeight]
      cases hkey : key == k with
      | true =>
        simp only [List.lookup, hkey, Option.some.injEq] at hlookup
        subst hlookup
        exact Nat.le_max_left ..
      | false =>
        simp only [List.lookup, hkey] at hlookup
        exact Nat.le_trans (ih hlookup) (Nat.le_max_right ..)
  obtain ⟨selector, cases, fallback⟩ := s
  simp only [Switch.choose, Switch.case?] at h
  cases hcase : cases.lookup key with
  | some q =>
    simp only [hcase, Prod.mk.injEq, Option.some.injEq] at h
    obtain ⟨-, rfl⟩ := h
    have hle := hcases cases hcase
    cases fallback with
    | none => exact hle
    | some q => exact Nat.le_trans hle (Nat.le_max_left ..)
  | none =>
    cases fallback with
    | none => simp [hcase] at h
    | some q =>
      simp only [hcase, Prod.mk.injEq, Option.some.injEq] at h
      obtain ⟨-, rfl⟩ := h
      exact Nat.le_max_right ..

/-- What the factory gives always weighs the same. -/
def Factory.Steady (factory : Factory σ (Task σ)) : Prop :=
  ∀ queue, factory.Gives queue → queue.weight state known = factory.weight state known

theorem Factory.steady_template (queue : Queue (Task σ)) :
    (Factory.template queue).Steady state known := by
  rintro _ rfl
  rfl

end Weight

/-! ## Limits -/

/-- The program never asks for a container to be run. -/
def Program.CallFree {τ κ ρ : Type} : Program σ τ κ ρ → Prop
  | .done _ => True
  | .read next => ∀ scope, (next scope).CallFree
  | .write _ next => next.CallFree
  | .remark _ next => next.CallFree
  | .find _ _ next => ∀ id, (next id).CallFree
  | .create _ _ next => ∀ id, (next id).CallFree
  | .addQueue _ _ next => next.CallFree
  | .inspect _ _ next => ∀ answer, (next answer).CallFree
  | .call _ _ => False

theorem Program.callFree_of_hook {τ ρ : Type} (p : Program σ τ Empty ρ) : p.CallFree := by
  induction p with
  | done result => trivial
  | read next ih => exact ih
  | write scope next ih => exact ih
  | remark r next ih => exact ih
  | find registry name next ih => exact ih
  | create registry registration next ih => exact ih
  | addQueue container queue next ih => exact ih
  | inspect container query next ih => exact ih
  | call request next ih => exact nomatch request

/-- Every loop in the task has a limit, its leaves make no calls and its factories are steady. Tasks
that are referred to are looked up among the objects, and known by their weight. -/
inductive Task.Limited (state : σ) (known : TaskId → Nat) (objects : TaskId → Option (Task σ)) :
    Task σ → Prop where
  | leaf {name : String} {body : Leaf σ TaskResult} :
      body.CallFree → Limited state known objects (.leaf name body)
  | conditional {condition : Condition σ} {thenQueue elseQueue : Factory σ (Task σ)} :
      (∀ holds : Bool, (if holds then thenQueue else elseQueue).Steady state known) →
      (∀ (holds : Bool) queue, (if holds then thenQueue else elseQueue).Gives queue →
        ∀ handle ∈ queue.handles, Limited state known objects handle.task) →
      Limited state known objects (.conditional condition thenQueue elseQueue)
  | loop {condition : Condition σ} {limit : Nat} {body : Factory σ (Task σ)} :
      body.Steady state known →
      (∀ queue, body.Gives queue →
        ∀ handle ∈ queue.handles, Limited state known objects handle.task) →
      Limited state known objects (.loop condition (some limit) body)
  | switch {s : Switch σ (Task σ)} :
      (∀ key event queue, s.choose key = (event, some queue) →
        ∀ handle ∈ queue.handles, Limited state known objects handle.task) →
      Limited state known objects (.switch s)
  | aspect {inner : Task σ} {before : Option (Hook σ Bool)} {after : Option (Hook σ Unit)} :
      Limited state known objects inner → Limited state known objects (.aspect inner before after)
  | shared {inner : Task σ} :
      Limited state known objects inner → Limited state known objects (.shared inner)
  | reference {r : Reference} :
      (∀ task, objects r.id = some task → known r.id = task.weight state known) →
      (∀ task, objects r.id = some task → Limited state known objects task) →
      Limited state known objects (.reference r)

/-! ## Computations that come to their end -/

def Event.startsLeaf : Event → Bool
  | .leafStarted _ => true
  | _ => false

theorem Switch.choose_startsLeaf (s : Switch σ (Task σ)) (key : σ.Key) :
    (s.choose key).1.startsLeaf = false := by
  unfold choose
  split <;> rfl

def leavesStarted (events : List Event) : Nat := events.countP Event.startsLeaf

/-- From every machine with those objects, the computation comes to its end and has then started so
many leaves at most. -/
def EndsWithin (objects : TaskId → Option (Task σ)) (leaves : Nat) (x : Nat → Exec σ α) : Prop :=
  ∀ m : Machine σ, m.store.object? = objects → ∃ v m', ∃ events : List Event,
    EndsEventually x m v m' ∧ m'.store.object? = objects ∧ m'.log = m.log ++ events ∧
      leavesStarted events ≤ leaves

namespace EndsWithin

variable {objects : TaskId → Option (Task σ)} {leaves w₁ w₂ : Nat} {x : Nat → Exec σ α}

theorem mono (h : EndsWithin objects w₁ x) (hle : w₁ ≤ w₂) : EndsWithin objects w₂ x := by
  intro m hm
  obtain ⟨v, m', events, hends, hobjects, hlog, hcount⟩ := h m hm
  exact ⟨v, m', events, hends, hobjects, hlog, Nat.le_trans hcount hle⟩

theorem of_succ (h : EndsWithin objects leaves fun n => x (n + 1)) :
    EndsWithin objects leaves x := by
  intro m hm
  obtain ⟨v, m', events, hends, h⟩ := h m hm
  exact ⟨v, m', events, hends.of_succ, h⟩

theorem succ (h : EndsWithin objects leaves x) : EndsWithin objects leaves fun n => x (n + 1) := by
  intro m hm
  obtain ⟨v, m', events, hends, h⟩ := h m hm
  exact ⟨v, m', events, hends.succ, h⟩

/-- A step that always succeeds, leaves the objects alone and starts no leaf. -/
theorem step {x : Exec σ α}
    (h : ∀ m, ∃ v m', ∃ events : List Event, x m = .finished v m' ∧
      m'.store.object? = m.store.object? ∧ m'.log = m.log ++ events ∧ leavesStarted events = 0) :
    EndsWithin objects 0 fun _ => x := by
  intro m hm
  obtain ⟨v, m', events, hx, hobjects, hlog, hcount⟩ := h m
  exact ⟨v, m', events, .always fun _ => hx, hobjects.trans hm, hlog, Nat.le_of_eq hcount⟩

theorem pure (v : α) : EndsWithin objects leaves fun _ => (pure v : Exec σ α) := by
  intro m hm
  exact ⟨v, m, [], .always fun _ => rfl, hm, by simp, Nat.zero_le _⟩

/-- The second part needs a bound only for the values that the first part can come to. -/
theorem bind_of_value {f : Nat → α → Exec σ β} (hx : EndsWithin objects w₁ x)
    (hf : ∀ v m m', EndsEventually x m v m' → EndsWithin objects w₂ fun n => f n v) :
    EndsWithin objects (w₁ + w₂) fun n => x n >>= f n := by
  intro m hm
  obtain ⟨a, m₁, l₁, hends₁, hobjects₁, hlog₁, hcount₁⟩ := hx m hm
  obtain ⟨b, m₂, l₂, hends₂, hobjects₂, hlog₂, hcount₂⟩ := hf a m m₁ hends₁ m₁ hobjects₁
  refine ⟨b, m₂, l₁ ++ l₂, hends₁.bind hends₂, hobjects₂, ?_, ?_⟩
  · rw [hlog₂, hlog₁, Log.append_append]
  · have hsum : leavesStarted (l₁ ++ l₂) = leavesStarted l₁ + leavesStarted l₂ :=
      List.countP_append
    omega

theorem bind {f : Nat → α → Exec σ β} (hx : EndsWithin objects w₁ x)
    (hf : ∀ v, EndsWithin objects w₂ fun n => f n v) :
    EndsWithin objects (w₁ + w₂) fun n => x n >>= f n :=
  hx.bind_of_value fun v _ _ _ => hf v

/-- What comes before starts no leaf. -/
theorem after {f : Nat → α → Exec σ β} (hx : EndsWithin objects 0 x)
    (hf : ∀ v, EndsWithin objects leaves fun n => f n v) :
    EndsWithin objects leaves fun n => x n >>= f n := by
  have h := hx.bind hf
  rwa [Nat.zero_add] at h

/-- What comes after starts no leaf. -/
theorem before {f : Nat → α → Exec σ β} (hx : EndsWithin objects leaves x)
    (hf : ∀ v, EndsWithin objects 0 fun n => f n v) :
    EndsWithin objects leaves fun n => x n >>= f n :=
  hx.bind hf

theorem emit (event : Event) (h : event.startsLeaf = false := by rfl) :
    EndsWithin (σ := σ) objects 0 fun _ => Exec.emit event := by
  refine step fun m => ⟨(), _, [event], rfl, rfl, by simp [Machine.logged], ?_⟩
  simp [leavesStarted, h]

theorem emit_leafStarted (name : String) :
    EndsWithin (σ := σ) objects 1 fun _ => Exec.emit (.leafStarted name) := by
  intro m hm
  exact ⟨(), _, [.leafStarted name], .always fun _ => rfl, hm, by simp [Machine.logged],
    Nat.le_refl _⟩

theorem ask (question : Scope σ → Answer σ α) :
    EndsWithin objects 0 fun _ => Exec.ask question := by
  refine step fun m => ⟨_, _, (question m.toScope).remarks.map .remark, rfl, rfl,
    Log.foldl_push_remark _ _, ?_⟩
  simp [leavesStarted, List.countP_eq_zero, Event.startsLeaf]

theorem build (factory : Factory σ (Task σ)) : EndsWithin objects 0 fun _ => factory.build := by
  cases factory with
  | template queue => exact pure queue
  | builder make => exact step fun m => ⟨_, _, [], rfl, rfl, by simp, rfl⟩

theorem bind_build {factory : Factory σ (Task σ)} {f : Nat → Queue (Task σ) → Exec σ β}
    (hf : ∀ queue, factory.Gives queue → EndsWithin objects leaves fun n => f n queue) :
    EndsWithin objects leaves fun n => factory.build >>= f n := by
  have h : EndsWithin objects (0 + leaves) fun n => factory.build >>= f n := by
    refine (build factory).bind_of_value fun queue m m' hends => hf queue ?_
    obtain ⟨_, hbuild⟩ := hends.ends
    exact Factory.gives_of_build hbuild
  rwa [Nat.zero_add] at h

theorem create (registry : String) (r : Registration) :
    EndsWithin (σ := σ) objects 0 fun _ => Exec.create registry r := by
  refine step fun m => ?_
  cases hfind : m.store.find? registry r.name with
  | some id =>
    exact ⟨id, _, [.reused r.name], Exec.create_of_some hfind, rfl, by simp [Machine.logged], rfl⟩
  | none => exact ⟨_, _, [.registered r.name], Exec.create_of_none hfind, rfl, by simp, rfl⟩

theorem program {κ ρ : Type} {p : Program σ (Task σ) κ ρ} (hp : p.CallFree)
    (call : Nat → κ → Exec σ RunResult) : EndsWithin objects 0 fun n => p.exec (call n) := by
  induction p with
  | done result => exact pure result
  | read next ih =>
    exact after (step fun m => ⟨m.toScope, m, [], rfl, rfl, by simp, rfl⟩) fun s => ih s (hp s)
  | write scope next ih =>
    exact after (step fun m => ⟨(), _, [], rfl, rfl, by simp, rfl⟩) fun _ => ih hp
  | remark r next ih => exact after (emit (.remark r)) fun _ => ih hp
  | find registry name next ih =>
    exact after (step fun m => ⟨_, m, [], rfl, rfl, by simp, rfl⟩) fun id => ih id (hp id)
  | create registry registration next ih =>
    exact after (create registry registration) fun id => ih id (hp id)
  | addQueue container queue next ih =>
    refine after (step fun m => ?_) fun _ => ih hp
    exact ⟨(), _, [.queueAdded container (m.store.container container).name queue.ids],
      rfl, rfl, by simp, rfl⟩
  | inspect container query next ih =>
    exact after (step fun m => ⟨_, _, [.inspected container query], rfl, rfl, by simp, rfl⟩)
      fun answer => ih answer (hp answer)
  | call request next ih => exact hp.elim

section Execute

variable {state : σ} {known : TaskId → Nat} {execute : Nat → Task σ → Exec σ TaskResult}

theorem drain (policy : Policy) (origin : Option ContainerId) {handles : List (Handle (Task σ))}
    (hexec : ∀ handle ∈ handles,
      EndsWithin objects (handle.task.weight state known) fun n => execute n handle.task) :
    EndsWithin objects (handlesWeight state known handles) fun n =>
      drain (execute n) policy origin handles := by
  induction handles with
  | nil => exact pure _
  | cons handle rest ih =>
    have ih := ih fun handle hmem => hexec handle (List.mem_cons_of_mem _ hmem)
    refine after (emit _) fun _ => bind (hexec handle List.mem_cons_self) fun result => ?_
    cases result with
    | ok => exact before ih fun _ => pure _
    | error error =>
      cases policy with
      | failFast => exact pure _
      | keepGoing => exact after (emit _) fun _ => before ih fun _ => pure _

theorem drainWithin {queue : Queue (Task σ)} (hexec : ∀ handle ∈ queue.handles,
      EndsWithin objects (handle.task.weight state known) fun n => execute n handle.task) :
    EndsWithin objects (queue.weight state known) fun n => drainWithin (execute n) queue :=
  before (drain _ _ hexec) fun _ => pure _

/-- A loop that has made so many passes starts at most the leaves of the passes that are left to it.
The induction is on these; each pass takes fuel from the tasks in the body too, so it goes over all
ways of executing them. -/
theorem iterate (name : String) (condition : Condition σ) {body : Factory σ (Task σ)}
    (hsteady : body.Steady state known) (limit iterations : Nat)
    (hexec : ∀ queue, body.Gives queue → ∀ handle ∈ queue.handles,
      EndsWithin objects (handle.task.weight state known) fun n => execute n handle.task) :
    EndsWithin objects ((limit - iterations) * body.weight state known) fun n =>
      iterate (execute n) name condition (some limit) body iterations n := by
  induction hleft : limit - iterations generalizing iterations execute with
  | zero =>
    have hle : limit ≤ iterations := by omega
    refine of_succ (after (ask condition) fun holds => ?_)
    cases holds with
    | false => exact after (emit _) fun _ => pure _
    | true =>
      simp only [if_true, Option.filter_some, hle, decide_true]
      exact pure _
  | succ left ih =>
    have hlt : ¬ limit ≤ iterations := by omega
    refine of_succ (after (ask condition) fun holds => ?_)
    cases holds with
    | false => exact after (emit _) fun _ => pure _
    | true =>
      simp only [if_true, Option.filter_some, hlt, decide_false]
      refine bind_build fun queue hgives => ?_
      have hpass : EndsWithin objects (body.weight state known) fun n =>
          Workflow.drainWithin (execute (n + 1)) queue := by
        rw [← hsteady queue hgives]
        exact drainWithin fun handle hmem => (hexec queue hgives handle hmem).succ
      have hrest : EndsWithin objects (left * body.weight state known) fun n =>
          Workflow.iterate (execute (n + 1)) name condition (some limit) body (iterations + 1) n :=
        ih (iterations + 1) (fun queue hgives handle hmem =>
          (hexec queue hgives handle hmem).succ) (by omega)
      rw [show (left + 1) * body.weight state known =
        body.weight state known + left * body.weight state known by
          rw [Nat.add_mul, Nat.one_mul, Nat.add_comm]]
      refine bind hpass fun result => ?_
      cases result with
      | ok => exact hrest
      | error error => exact pure _

end Execute

theorem task {state : σ} {known : TaskId → Nat} {t : Task σ} (h : t.Limited state known objects) :
    EndsWithin objects (t.weight state known) fun fuel => t.execute fuel := by
  induction h with
  | leaf hbody =>
    exact of_succ (before (emit_leafStarted _) fun _ => program hbody _)
  | @conditional condition thenQueue elseQueue hsteady _ ih =>
    refine of_succ (after (ask condition) fun holds => after (emit _) fun _ => ?_)
    refine bind_build fun queue hgives => mono (drainWithin (ih holds queue hgives)) ?_
    rw [hsteady holds queue hgives]
    cases holds with
    | true => exact Nat.le_max_left ..
    | false => exact Nat.le_max_right ..
  | @loop condition limit body hsteady _ ih =>
    exact of_succ (iterate _ condition hsteady limit 0 ih)
  | @switch s _ ih =>
    refine of_succ (after (ask s.selector) fun key => ?_)
    rcases hchoice : s.choose key with ⟨event, queue?⟩
    have hevent : event.startsLeaf = false := by
      have hquiet := s.choose_startsLeaf key
      rwa [hchoice] at hquiet
    refine after (emit event hevent) fun _ => ?_
    cases queue? with
    | none => exact pure _
    | some queue =>
      exact mono (drainWithin (ih key event queue hchoice))
        (Switch.weight_le_of_choose state known hchoice)
  | @aspect inner before after _ ih =>
    have hopens : EndsWithin objects 0 fun _ => Task.opens before := by
      cases before with
      | none => exact pure _
      | some hook => exact program hook.callFree_of_hook _
    refine of_succ (EndsWithin.after hopens fun isOpen => ?_)
    cases isOpen with
    | false => exact EndsWithin.after (emit _) fun _ => pure _
    | true =>
      refine EndsWithin.before ih fun result => ?_
      cases result with
      | error error => exact pure _
      | ok =>
        cases after with
        | none => exact pure _
        | some hook => exact EndsWithin.after (program hook.callFree_of_hook _) fun _ => pure _
  | shared _ ih => exact of_succ ih
  | @reference r hweight _ ih =>
    refine of_succ fun m hm => ?_
    have hlook : ∀ n, Task.execute (n + 1) (.reference r) m =
        (objects r.id).elim (Pure.pure (.ok ())) (fun t => t.execute n) m := by
      intro n
      rw [← hm]
      refine (Exec.look_bind _ _ m).trans ?_
      cases m.store.object? r.id <;> rfl
    simp only [EndsEventually, hlook]
    cases hfound : objects r.id with
    | none => exact pure _ m hm
    | some t =>
      have hweight : (Task.reference r).weight state known = t.weight state known :=
        hweight t hfound
      rw [hweight]
      exact ih t hfound m hm

end EndsWithin

/-! ## Tasks and queues -/

/-- A task with limits comes to its end from every machine that has the objects it refers to, and so
does a queue of such tasks under either policy. On the way at most as many leaves are started as the
task or the queue weighs. -/
theorem limited_ends_within_weight (state : σ) (known : TaskId → Nat)
    (objects : TaskId → Option (Task σ)) (m : Machine σ) (hm : m.store.object? = objects) :
    (∀ t : Task σ, t.Limited state known objects → ∃ result m', ∃ events : List Event,
      Ends (fun fuel => t.execute fuel) m result m' ∧ m'.log = m.log ++ events ∧
        leavesStarted events ≤ t.weight state known) ∧
    ∀ (queue : Queue (Task σ)) (policy : Policy),
      (∀ handle ∈ queue.handles, handle.task.Limited state known objects) →
      ∃ drained m', ∃ events : List Event,
        Ends (fun fuel => queue.execute fuel policy) m drained m' ∧ m'.log = m.log ++ events ∧
          leavesStarted events ≤ queue.weight state known := by
  constructor
  · intro t ht
    obtain ⟨result, m', events, hends, -, hlog, hcount⟩ := EndsWithin.task ht m hm
    exact ⟨result, m', events, hends.ends, hlog, hcount⟩
  · intro queue policy hqueue
    have hdrain : EndsWithin objects (queue.weight state known) fun fuel =>
        queue.execute fuel policy :=
      EndsWithin.drain policy none fun handle hmem => EndsWithin.task (hqueue handle hmem)
    obtain ⟨drained, m', events, hends, -, hlog, hcount⟩ := hdrain m hm
    exact ⟨drained, m', events, hends.ends, hlog, hcount⟩

/-- A leaf that is a new object in each pass. -/
def ticking : Factory Nat (Task Nat) :=
  .builder fun state => (⟨[⟨⟨state⟩, .leaf "tick" (.done (.ok ()))⟩]⟩, state)

/-- Three passes, and the condition does not hold after them. -/
def turning : Task Nat :=
  .loop (fun scope => ⟨decide (scope.state % 4 < 3), scope.state + 1, []⟩) (some 3) ticking

def clockwork : Task Nat :=
  .loop (fun scope => .of scope (decide (scope.state < 8))) (some 2) (.template ⟨[⟨⟨0⟩, turning⟩]⟩)

def wound : Machine Nat := ⟨⟨Context.empty, 0⟩, Store.empty, #[]⟩

def turn (first : Nat) : List Event :=
  .taskStarted none ⟨0⟩ "loop" :: [first, first + 1, first + 2].flatMap (fun id =>
    [.taskStarted none ⟨id⟩ "tick", .leafStarted "tick"]) ++ [.loopFinished 3]

def unwound : Machine Nat :=
  ⟨⟨Context.empty, 8⟩, Store.empty, (turn 1 ++ turn 5 ++ [Event.loopFinished 2]).toArray⟩

theorem execute_clockwork : clockwork.execute 8 wound = .finished (.ok ()) unwound := by
  cbv

theorem turning_limited (known : TaskId → Nat) (objects : TaskId → Option (Task Nat)) :
    turning.Limited (σ := Nat) 0 known objects := by
  refine .loop ?_ fun queue hqueue handle hmem => ?_
  · rintro queue ⟨state, rfl⟩
    rfl
  · obtain ⟨state, rfl⟩ := hqueue
    cases List.mem_singleton.1 hmem
    exact .leaf trivial

theorem clockwork_limited (known : TaskId → Nat) (objects : TaskId → Option (Task Nat)) :
    clockwork.Limited (σ := Nat) 0 known objects := by
  refine .loop (fun _ hqueue => Factory.steady_template (σ := Nat) 0 known _ _ hqueue) ?_
  intro queue hqueue handle hmem
  cases hqueue
  cases List.mem_singleton.1 hmem
  exact turning_limited known objects

/-- The bound is reached, through the limits of both loops. -/
theorem clockwork_ends_within_weight :
    wound.store.object? = (fun _ => none) ∧
    clockwork.Limited (σ := Nat) 0 (fun _ => 0) (fun _ => none) ∧
    Ends (fun fuel => clockwork.execute fuel) wound (.ok ()) unwound ∧
    leavesStarted unwound.log.toList = 6 ∧ clockwork.weight (σ := Nat) 0 (fun _ => 0) = 6 ∧
    ∃ result m', ∃ events : List Event, Ends (fun fuel => clockwork.execute fuel) wound result m' ∧
      m'.log = wound.log ++ events ∧ leavesStarted events ≤ 6 := by
  have hobjects : wound.store.object? = fun _ => none := rfl
  have hlimited := clockwork_limited (fun _ => 0) fun _ => none
  refine ⟨hobjects, hlimited, ⟨8, execute_clockwork⟩, by decide, by decide, ?_⟩
  exact (limited_ends_within_weight (σ := Nat) 0 _ _ wound hobjects).1 clockwork hlimited

end Workflow
