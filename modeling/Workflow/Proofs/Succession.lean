import Workflow.Proofs.Container.Isolation
import Workflow.Proofs.Correspondence

/-! # Workflow.Proofs.Succession

One execution after the other, on two machines that are alike. Tasks that correspond come to the
same each time, whatever has been executed before and however it has ended, since the machines are
alike again after each execution.

* `Machine.Drains`: queues that are executed in turn.
* `Machine.Drains.follows`, `Host.Performs.follows`, `Host.History.follows`: the other machine, and
  the other host, follow.
-/

namespace Workflow

variable {σ : Domain} {L : Likeness σ} {way : L.Way}

/-- Contexts are alike if they are the same. -/
structure Likeness.Plain (L : Likeness σ) (way : L.Way) : Prop where
  context : ∀ {c c'}, L.context way c c' ↔ c = c'
  registered : ∀ {c c'}, L.registered c c' ↔ c = c'

theorem Likeness.Plain.flip (h : L.Plain way) : L.flip.Plain way :=
  ⟨h.context.trans eq_comm, h.registered.trans eq_comm⟩

/-! ## Queues -/

/-- A queue to execute, with the context and the policy. -/
structure Job (σ : Domain) where
  context : Context
  policy : Policy
  queue : Queue (Task σ)

structure Job.Like (L : Likeness σ) (job job' : Job σ) : Prop where
  context : job.context = job'.context
  policy : job.policy = job'.policy
  queue : job.queue.Like L job'.queue

/-- What a job comes to, and the context as it leaves it. -/
structure Done (σ : Domain) extends Drained σ where
  context : Context

structure Done.Like (L : Likeness σ) (d d' : Done σ) : Prop where
  drained : d.toDrained.Like L d'.toDrained
  context : d.context = d'.context

/-- The jobs are done one after the other, and come to that. -/
inductive Machine.Drains : Machine σ → List (Job σ) → List (Done σ) → Machine σ → Prop where
  | nil {m : Machine σ} : Drains m [] [] m
  | cons {m m₁ m₂ : Machine σ} {job : Job σ} {jobs : List (Job σ)} {d : Drained σ}
      {done : List (Done σ)} :
      Ends (fun fuel => job.queue.execute fuel job.policy) { m with context := job.context } d m₁ →
      Drains m₁ jobs done m₂ → Drains m (job :: jobs) (⟨d, m₁.context⟩ :: done) m₂

theorem Job.Like.flip {job job' : Job σ} (h : job.Like L job') : job'.Like L.flip job :=
  ⟨h.context.symm, h.policy.symm, h.queue.flip⟩

theorem Done.Like.flip {d d' : Done σ} (h : d.Like L d') : d'.Like L.flip d :=
  ⟨⟨h.drained.result.symm, h.drained.rest.flip⟩, h.context.symm⟩

theorem Machine.Like.withContext {m m' : Machine σ} (hm : m.Like L way m') {c c' : Context}
    (hc : L.context way c c') :
    Machine.Like L way { m with context := c } { m' with context := c' } :=
  ⟨⟨hc, hm.scope.state⟩, hm.store, hm.log⟩

theorem Machine.Drains.follows (hL : L.Corresponds) (hplain : L.Plain way) {m m' m₁ : Machine σ}
    (hm : m.Like L way m') {jobs jobs' : List (Job σ)}
    (hjobs : List.Forall₂ (Job.Like L) jobs jobs') {done : List (Done σ)}
    (h : m.Drains jobs done m₁) :
    ∃ done' m₁', m'.Drains jobs' done' m₁' ∧ List.Forall₂ (Done.Like L) done done' ∧
      m₁.Like L way m₁' := by
  induction h generalizing m' jobs' with
  | nil =>
    cases hjobs
    exact ⟨[], m', .nil, .nil, hm⟩
  | @cons m m₁ m₂ job jobs d done hends _ ih =>
    obtain ⟨job', rest', hjob, hrest, rfl⟩ := List.forall₂_cons_left_iff.1 hjobs
    obtain ⟨d', m₁', hends', hd, hm₁⟩ :=
      hends.follows (Queue.execute_follows hL hjob.queue job.policy way)
        (hm.withContext (hplain.context.2 hjob.context))
    rw [hjob.policy] at hends'
    obtain ⟨done', m₂', hdrains, hdone, hm₂⟩ := ih hm₁ hrest
    have hcontext : m₁.context = m₁'.context := hplain.context.1 hm₁.scope.context
    exact ⟨_, m₂', .cons hends' hdrains, .cons ⟨hd, hcontext⟩ hdone, hm₂⟩

/-! ## Operations on containers -/

structure Host.Like (L : Likeness σ) (way : L.Way) (h h' : Host σ) : Prop where
  machine : h.machine.Like L way h'.machine
  contexts : h.contexts = h'.contexts

theorem Host.Like.flip {h h' : Host σ} (hh : h.Like L way h') : h'.Like L.flip way h :=
  ⟨hh.machine.flip, hh.contexts.symm⟩

/-- The same is done with the container, which is one that tasks may use, and a queue that is added
is alike. -/
inductive Operation.Like (L : Likeness σ) :
    ContainerId × Operation σ → ContainerId × Operation σ → Prop where
  | addQueue {c : ContainerId} {queue queue' : Queue (Task σ)} :
      L.uses c → queue.Like L queue' → Like L (c, .addQueue queue) (c, .addQueue queue')
  | run {c : ContainerId} : L.uses c → L.enters c → Like L (c, .run) (c, .run)
  | execute {c : ContainerId} (own : String) : L.uses c → Like L (c, .execute own) (c, .execute own)
  | insert {c : ContainerId} (key : String) (value : Value) :
      L.uses c → L.enters c → Like L (c, .insert key value) (c, .insert key value)

theorem Operation.Like.flip {op op' : ContainerId × Operation σ} (h : Operation.Like L op op') :
    Operation.Like L.flip op' op := by
  cases h with
  | addQueue hc hqueue => exact .addQueue hc hqueue.flip
  | run hc henters => exact .run hc henters
  | execute own hc => exact .execute own hc
  | insert key value hc henters => exact .insert key value hc henters

namespace Host

variable {h h' h₁ : Host σ}

theorem Performs.follows (hL : L.Corresponds) (hplain : L.Plain way) (hh : h.Like L way h')
    {op op' : ContainerId × Operation σ} (hop : Operation.Like L op op') {response : Response}
    (hp : Performs op.1 h op.2 response h₁) :
    ∃ h₁', Performs op'.1 h' op'.2 response h₁' ∧ h₁.Like L way h₁' := by
  obtain ⟨hm, hcontexts⟩ := hh
  cases hop with
  | addQueue hc hqueue =>
    cases hp with
    | addQueue hadd =>
      obtain ⟨_, m', ⟨_, hadd'⟩, -, hm'⟩ :=
        Ends.follows (fun _ => Exec.Follows.addQueue hc hqueue) hm ⟨0, hadd⟩
      exact ⟨_, .addQueue hadd', hm', hcontexts⟩
  | @run c hc henters =>
    cases hp with
    | run hrun =>
      obtain ⟨_, m', hrun', rfl, hm'⟩ :=
        hrun.follows (ContainerId.run_follows hL hc henters way) hm
      exact ⟨_, .run hrun', hm', hcontexts⟩
  | @execute c own hc =>
    cases hp with
    | @execute _ _ m hexecute =>
      have hown : L.context way (h.contexts c own) (h'.contexts c own) := by
        rw [hplain.context, hcontexts]
      obtain ⟨_, m', hexecute', rfl, hm'⟩ :=
        hexecute.follows (ContainerId.execute_follows hL hc way) (hm.withContext hown)
      refine ⟨_, .execute hexecute', hm'.withContext hm.scope.context, ?_⟩
      have hcontext : m.context = m'.context := hplain.context.1 hm'.scope.context
      funext d name
      simp only [keep, hcontexts, hcontext]
  | @insert c key value hc henters =>
    cases hp with
    | insert hfree =>
      have hshared := hm.store.contextOf hc henters
      have hcontent := hplain.registered.1 hshared.content
      have hfree' : (h'.machine.store.contextOf c).locked = false := by
        rw [← hshared.locked, hfree]
      rw [hcontent]
      refine ⟨_, .insert hfree', ⟨hm.scope, ?_, hm.log⟩, hcontexts⟩
      rw [← (hm.store.container hc).context]
      refine hm.store.modifyContext (hm.store.shares_entered hc henters) fun hcc => ⟨?_, hcc.locked⟩
      rw [hplain.registered, hplain.registered.1 hcc.content]

theorem History.follows (hL : L.Corresponds) (hplain : L.Plain way) (hh : h.Like L way h')
    {ops ops' : List (ContainerId × Operation σ)} (hops : List.Forall₂ (Operation.Like L) ops ops')
    {responses : List (ContainerId × Response)} (hp : History h ops responses h₁) :
    ∃ h₁', History h' ops' responses h₁' ∧ h₁.Like L way h₁' := by
  induction hp generalizing h' ops' with
  | nil =>
    cases hops
    exact ⟨h', .nil, hh⟩
  | @cons h h₁ h₂ c op response ops responses hstep _ ih =>
    obtain ⟨⟨c', op'⟩, rest', hop, hrest, rfl⟩ := List.forall₂_cons_left_iff.1 hops
    obtain ⟨h₁', hstep', hh₁⟩ := hstep.follows hL hplain hh hop
    obtain ⟨h₂', hhistory, hh₂⟩ := ih hh₁ hrest
    have hc : c = c' := by cases hop <;> rfl
    subst hc
    exact ⟨h₂', .cons hstep' hhistory, hh₂⟩

end Host
end Workflow
