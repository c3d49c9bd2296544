import Workflow.Proofs.Succession

/-! # Workflow.Proofs.Interchange

Templates and builders of queues are interchangeable where the tasks keep no state. A template hands
out the same task objects at each pass and a builder makes new ones; what the tasks do hangs on the
context alone, so the one does as well as the other, over any succession of executions.

* `interchange`: the likeness under which states and identities do not matter.
* `Factory.like_of_gives`: factories that come to give queues of alike tasks are alike.
* `templates_and_builders_are_interchangeable`: queues executed in turn, and whatever is done with
  containers.
* `Task.Interchangeable`: whatever tasks correspond; `replacing_template_by_builder`: a template and
  the builder of its tasks.
-/

namespace Workflow

variable {σ : Domain} {task : Task σ → Task σ → Prop} {reach : Reach}

/-- Contexts have to be the same; the states and the identities of tasks may be whatever they are.
So tasks that correspond depend on the context alone. -/
def interchange (task : Task σ → Task σ → Prop) (reach : Reach) : Likeness σ where
  toReach := reach
  Way := Unit
  context _ := Eq
  registered := Eq
  state _ _ := True
  id _ _ := True
  task := task
  enters _ := True
  shares _ := True
  aside _ _ := True
  registered_refl := Eq.refl
  enter := @Likeness.enter_same

theorem interchange_plain (way : (interchange task reach).Way) :
    (interchange task reach).Plain way := ⟨Iff.rfl, Iff.rfl⟩

/-- Whether they are templates or builders. -/
theorem Factory.like_of_gives {factory factory' : Factory σ (Task σ)}
    (h : ∀ queue queue', factory.Gives queue → factory'.Gives queue' →
      queue.Like (interchange task reach) queue') :
    factory.Like (interchange task reach) factory' := by
  have hgive (f : Factory σ (Task σ)) (s : σ) : f.Gives (f.give s).1 := by
    cases f with
    | template queue => rfl
    | builder make => exact ⟨s, rfl⟩
  intro s s' _
  exact ⟨h _ _ (hgive factory s) (hgive factory' s'), trivial⟩

/-! ## Successions of executions -/

section Succession

variable (hL : (interchange task reach).Corresponds)
include hL

theorem Machine.Drains.forth_and_back {m m' : Machine σ} {jobs jobs' : List (Job σ)}
    (hm : m.Like (interchange task reach) () m')
    (hjobs : List.Forall₂ (Job.Like (interchange task reach)) jobs jobs') :
    (∀ done m₁, m.Drains jobs done m₁ → ∃ done' m₁', m'.Drains jobs' done' m₁' ∧
      List.Forall₂ (Done.Like (interchange task reach)) done done' ∧
      m₁.log.remarks = m₁'.log.remarks ∧ m₁.Like (interchange task reach) () m₁') ∧
    ∀ done' m₁', m'.Drains jobs' done' m₁' → ∃ done m₁, m.Drains jobs done m₁ ∧
      List.Forall₂ (Done.Like (interchange task reach)) done done' ∧
      m₁.log.remarks = m₁'.log.remarks ∧ m₁.Like (interchange task reach) () m₁' := by
  have hplain : (interchange task reach).Plain () := interchange_plain ()
  constructor
  · intro done m₁ hdrains
    obtain ⟨done', m₁', hdrains', hdone, hm₁⟩ := hdrains.follows hL hplain hm hjobs
    exact ⟨done', m₁', hdrains', hdone, hm₁.log.remarks_eq, hm₁⟩
  · intro done' m₁' hdrains'
    have hback := (List.Forall₂.imp (fun _ _ => Job.Like.flip) hjobs).flip
    obtain ⟨done, m₁, hdrains, hdone, hm₁⟩ := hdrains'.follows hL.flip hplain.flip hm.flip hback
    have hm₁ : m₁.Like (interchange task reach) () m₁' := hm₁.flip
    exact ⟨done, m₁, hdrains, (List.Forall₂.imp (fun _ _ => Done.Like.flip) hdone).flip,
      hm₁.log.remarks_eq, hm₁⟩

theorem Host.History.forth_and_back {h h' : Host σ} {ops ops' : List (ContainerId × Operation σ)}
    (responses : List (ContainerId × Response)) (hh : h.Like (interchange task reach) () h')
    (hops : List.Forall₂ (Operation.Like (interchange task reach)) ops ops') :
    (∀ h₁, h.History ops responses h₁ → ∃ h₁', h'.History ops' responses h₁' ∧
      h₁.machine.log.remarks = h₁'.machine.log.remarks ∧ h₁.Like (interchange task reach) () h₁') ∧
    ∀ h₁', h'.History ops' responses h₁' → ∃ h₁, h.History ops responses h₁ ∧
      h₁.machine.log.remarks = h₁'.machine.log.remarks ∧
      h₁.Like (interchange task reach) () h₁' := by
  have hplain : (interchange task reach).Plain () := interchange_plain ()
  constructor
  · intro h₁ hhistory
    obtain ⟨h₁', hhistory', hh₁⟩ := hhistory.follows hL hplain hh hops
    exact ⟨h₁', hhistory', hh₁.machine.log.remarks_eq, hh₁⟩
  · intro h₁' hhistory'
    have hback := (List.Forall₂.imp (fun _ _ => Operation.Like.flip) hops).flip
    obtain ⟨h₁, hhistory, hh₁⟩ := hhistory'.follows hL.flip hplain.flip hh.flip hback
    have hh₁ : h₁.Like (interchange task reach) () h₁' := hh₁.flip
    exact ⟨h₁, hhistory, hh₁.machine.log.remarks_eq, hh₁⟩

end Succession

theorem templates_and_builders_are_interchangeable
    (hL : (interchange task reach).Corresponds) :
    let L := interchange task reach
    (∀ {m m' : Machine σ} {jobs jobs' : List (Job σ)}, m.Like L () m' →
      List.Forall₂ (Job.Like L) jobs jobs' →
      (∀ done m₁, m.Drains jobs done m₁ → ∃ done' m₁', m'.Drains jobs' done' m₁' ∧
        List.Forall₂ (Done.Like L) done done' ∧ m₁.log.remarks = m₁'.log.remarks ∧
        m₁.Like L () m₁') ∧
      ∀ done' m₁', m'.Drains jobs' done' m₁' → ∃ done m₁, m.Drains jobs done m₁ ∧
        List.Forall₂ (Done.Like L) done done' ∧ m₁.log.remarks = m₁'.log.remarks ∧
        m₁.Like L () m₁') ∧
    ∀ {h h' : Host σ} {ops ops' : List (ContainerId × Operation σ)}
      (responses : List (ContainerId × Response)), h.Like L () h' →
      List.Forall₂ (Operation.Like L) ops ops' →
      (∀ h₁, h.History ops responses h₁ → ∃ h₁', h'.History ops' responses h₁' ∧
        h₁.machine.log.remarks = h₁'.machine.log.remarks ∧ h₁.Like L () h₁') ∧
      ∀ h₁', h'.History ops' responses h₁' → ∃ h₁, h.History ops responses h₁ ∧
        h₁.machine.log.remarks = h₁'.machine.log.remarks ∧ h₁.Like L () h₁' := by
  intro L
  exact ⟨fun hm hjobs => Machine.Drains.forth_and_back hL hm hjobs,
    fun responses hh hops => Host.History.forth_and_back hL responses hh hops⟩

/-! ## One factory in the place of another -/

/-- Tasks that some correspondence relates: they depend on the context alone, and do the same. -/
def Task.Interchangeable (reach : Reach) (t t' : Task σ) : Prop :=
  ∃ task, (interchange task reach).Corresponds ∧ task t t'

/-- Of all the tasks that correspondences relate. -/
def interchangeable (reach : Reach) : Likeness σ := interchange (Task.Interchangeable reach) reach

theorem interchangeable_corresponds : (interchangeable reach : Likeness σ).Corresponds where
  name := fun ⟨_, hL, ht⟩ => hL.name ht
  like := fun ⟨task, hL, ht⟩ => (hL.like ht).mono fun hu => ⟨task, hL, hu⟩

/-- What is put together from such tasks in the same way is such a task again. -/
theorem Task.Interchangeable.of_like {t t' : Task σ} (hname : t.name = t'.name)
    (h : t.Like (interchangeable reach) t') : t.Interchangeable reach t' := by
  have hmore {u u' : Task σ} (hu : u.Interchangeable reach u') :
      u.Interchangeable reach u' ∨ u = t ∧ u' = t' := .inl hu
  refine ⟨fun u u' => u.Interchangeable reach u' ∨ u = t ∧ u' = t', ⟨?_, ?_⟩, .inr ⟨rfl, rfl⟩⟩
  · rintro u u' (hu | ⟨rfl, rfl⟩)
    · exact interchangeable_corresponds.name hu
    · exact hname
  · rintro u u' (hu | ⟨rfl, rfl⟩)
    · exact (interchangeable_corresponds.like hu).mono hmore
    · exact h.mono hmore

/-- `t'` is `t` with the one factory in the place of the other, as the body of a loop or as one of
the branches of a conditional. The rest of the task depends on the context alone. -/
inductive Task.Swapped (reach : Reach) (factory factory' : Factory σ (Task σ)) :
    Task σ → Task σ → Prop where
  | body {condition : Condition σ} (limit : Option Nat) :
      Question.Like (interchangeable reach) condition condition →
      Swapped reach factory factory' (.loop condition limit factory)
        (.loop condition limit factory')
  | thenQueue {condition : Condition σ} {other : Factory σ (Task σ)} :
      Question.Like (interchangeable reach) condition condition →
      other.Like (interchangeable reach) other →
      Swapped reach factory factory' (.conditional condition factory other)
        (.conditional condition factory' other)
  | elseQueue {condition : Condition σ} {other : Factory σ (Task σ)} :
      Question.Like (interchangeable reach) condition condition →
      other.Like (interchangeable reach) other →
      Swapped reach factory factory' (.conditional condition other factory)
        (.conditional condition other factory')

theorem Task.Swapped.interchangeable {factory factory' : Factory σ (Task σ)} {t t' : Task σ}
    (h : t.Swapped reach factory factory' t')
    (hlike : factory.Like (interchangeable reach) factory') : t.Interchangeable reach t' := by
  cases h with
  | body limit hcondition => exact .of_like rfl (.loop hcondition hlike)
  | thenQueue hcondition hother => exact .of_like rfl (.conditional hcondition hlike hother)
  | elseQueue hcondition hother => exact .of_like rfl (.conditional hcondition hother hlike)

/-- The tasks of a template, which a builder makes anew whenever it is asked. -/
def BuildsAnew (reach : Reach) (queue : Queue (Task σ)) (make : σ → Queue (Task σ) × σ) : Prop :=
  ∀ s, List.Forall₂ (fun h h' => h.task.Interchangeable reach h'.task) queue.handles
    (make s).1.handles

theorem BuildsAnew.like {queue : Queue (Task σ)} {make : σ → Queue (Task σ) × σ}
    (h : BuildsAnew reach queue make) :
    Factory.Like (interchangeable reach) (.template queue) (.builder make) := by
  refine Factory.like_of_gives ?_
  rintro _ _ rfl ⟨s, rfl⟩
  exact List.Forall₂.imp (fun _ _ ht => ⟨trivial, ht⟩) (h s)

/-- A builder that makes the tasks of a template anew may take its place, in a loop or in a
conditional, and the template the place of the builder: executed in turn any number of times, on
whatever contexts and under whatever policies, the tasks come to the same. -/
theorem replacing_template_by_builder {queue : Queue (Task σ)} {make : σ → Queue (Task σ) × σ}
    (hmake : BuildsAnew reach queue make) {t t' : Task σ}
    (ht : t.Swapped reach (.template queue) (.builder make) t') (id : TaskId)
    (turns : List (Context × Policy)) {m m' : Machine σ}
    (hm : m.Like (interchangeable reach) () m') :
    let jobs (t : Task σ) : List (Job σ) := turns.map fun (c, policy) => ⟨c, policy, ⟨[⟨id, t⟩]⟩⟩
    (∀ done m₁, m.Drains (jobs t) done m₁ → ∃ done' m₁', m'.Drains (jobs t') done' m₁' ∧
      List.Forall₂ (Done.Like (interchangeable reach)) done done' ∧
      m₁.log.remarks = m₁'.log.remarks ∧ m₁.Like (interchangeable reach) () m₁') ∧
    ∀ done' m₁', m'.Drains (jobs t') done' m₁' → ∃ done m₁, m.Drains (jobs t) done m₁ ∧
      List.Forall₂ (Done.Like (interchangeable reach)) done done' ∧
      m₁.log.remarks = m₁'.log.remarks ∧ m₁.Like (interchangeable reach) () m₁' := by
  intro jobs
  have hswap : t.Interchangeable reach t' := ht.interchangeable hmake.like
  refine Machine.Drains.forth_and_back interchangeable_corresponds hm ?_
  refine List.forall₂_map_left_iff.2 (List.forall₂_map_right_iff.2 (List.forall₂_same.2 ?_))
  rintro ⟨c, policy⟩ _
  exact ⟨rfl, rfl, .cons ⟨trivial, hswap⟩ .nil⟩

/-! A loop that fails in its second pass, when its body has been drained half-way. -/

def advance : Task Nat := .leaf "advance" <| .read fun scope =>
  if (scope.context.get? "first").isSome then
    .write { scope with context := scope.context.insert "second" true }
      (.done (.error (.plain "worn out")))
  else .write { scope with context := scope.context.insert "first" true } (.done (.ok ()))

def rest : Task Nat := .leaf "rest" (.done (.ok ()))

def toil (body : Factory Nat (Task Nat)) : Task Nat :=
  .loop (fun scope => .of scope (scope.context.get? "second").isNone) none body

def sameHands : Factory Nat (Task Nat) := .template ⟨[⟨⟨0⟩, advance⟩, ⟨⟨1⟩, rest⟩]⟩

def newHands : Factory Nat (Task Nat) :=
  .builder fun state => (⟨[⟨⟨state⟩, advance⟩, ⟨⟨state + 1⟩, rest⟩]⟩, state + 2)

/-- Under either, a loop with the one body stands for the loop with the other. -/
inductive Toils : Task Nat → Task Nat → Prop where
  | toil : Toils (toil sameHands) (toil newHands)
  | advance : Toils advance advance
  | rest : Toils rest rest

theorem toil_asks_context {task : Task Nat → Task Nat → Prop} :
    Question.Like (interchange task reach)
      (fun scope => .of scope (scope.context.get? "second").isNone)
      (fun scope => .of scope (scope.context.get? "second").isNone) := by
  intro way s s' hs
  have hcontext : s.context = s'.context := hs.context
  refine ⟨?_, rfl, trivial⟩
  show (s.context.get? "second").isNone = (s'.context.get? "second").isNone
  rw [hcontext]

theorem toils_correspond :
    (interchange Toils .nowhere).Corresponds where
  name h := by cases h <;> rfl
  like h := by
    cases h with
    | toil =>
      refine .loop toil_asks_context (Factory.like_of_gives ?_)
      rintro queue queue' rfl ⟨state, rfl⟩
      exact .cons ⟨trivial, .advance⟩ (.cons ⟨trivial, .rest⟩ .nil)
    | advance =>
      refine .leaf fun way => ?_
      refine .read fun s s' hs => ?_
      have hcontext : s.context = s'.context := hs.context
      rw [hcontext]
      split
      · exact .write ⟨rfl, trivial⟩ (.done _)
      · exact .write ⟨rfl, trivial⟩ (.done _)
    | rest => exact .leaf fun way => .done _

/-- So the new hands may replace the same hands. -/
theorem toil_swapped :
    (toil sameHands).Swapped .nowhere sameHands newHands (toil newHands) ∧
      sameHands.Like (interchangeable .nowhere) newHands := by
  have hanew : BuildsAnew (σ := Nat) .nowhere ⟨[⟨⟨0⟩, advance⟩, ⟨⟨1⟩, rest⟩]⟩
      (fun state => (⟨[⟨⟨state⟩, advance⟩, ⟨⟨state + 1⟩, rest⟩]⟩, state + 2)) := by
    intro state
    exact .cons ⟨Toils, toils_correspond, .advance⟩ (.cons ⟨Toils, toils_correspond, .rest⟩ .nil)
  exact ⟨.body none toil_asks_context, hanew.like⟩

def toilers (body : Factory Nat (Task Nat)) : Queue (Task Nat) :=
  ⟨[⟨⟨2⟩, toil body⟩, ⟨⟨1⟩, rest⟩]⟩

/-- The loop is executed anew after it has failed. -/
def toiling (body : Factory Nat (Task Nat)) : List (Job Nat) :=
  [⟨.empty, .failFast, toilers body⟩, ⟨.empty, .keepGoing, toilers body⟩]

def wornContext : Context := (Context.empty.insert "first" true).insert "second" true

def wornOut : ExecutionError := .taskFailed "advance" (.plain "worn out")

def toilEvents : List Event :=
  .taskStarted none ⟨2⟩ "loop" :: [(0, "advance"), (1, "rest"), (0, "advance")].flatMap
    fun (id, name) => [.taskStarted none ⟨id⟩ name, .leafStarted name]

def idle : Machine Nat := ⟨⟨.empty, 3⟩, Store.empty, #[]⟩

def wornOnce : Machine Nat := ⟨⟨wornContext, 3⟩, Store.empty, toilEvents.toArray⟩

def wornTwice : Machine Nat :=
  ⟨⟨wornContext, 3⟩, Store.empty, (toilEvents ++ toilEvents ++ [Event.failureNoted wornOut,
    Event.taskStarted none ⟨1⟩ "rest", Event.leafStarted "rest"]).toArray⟩

def toiled : List (Done Nat) :=
  [⟨⟨.error wornOut, ⟨[⟨⟨1⟩, rest⟩]⟩⟩, wornContext⟩, ⟨⟨.ok ⟨1, [wornOut]⟩, .empty⟩, wornContext⟩]

theorem execute_toilers : (toilers sameHands).execute 6 .failFast idle =
    .finished ⟨.error wornOut, ⟨[⟨⟨1⟩, rest⟩]⟩⟩ wornOnce := by
  rfl

theorem execute_toilers_again :
    (toilers sameHands).execute 6 .keepGoing { wornOnce with context := .empty } =
      .finished ⟨.ok ⟨1, [wornOut]⟩, .empty⟩ wornTwice := by
  rfl

/-- New hands come to the same as the same hands. -/
theorem toils_are_interchangeable :
    let L := interchange Toils .nowhere
    L.Corresponds ∧ idle.Like L () idle ∧
      List.Forall₂ (Job.Like L) (toiling sameHands) (toiling newHands) ∧
      idle.Drains (toiling sameHands) toiled wornTwice ∧
      ∃ done' m₁', idle.Drains (toiling newHands) done' m₁' ∧
        List.Forall₂ (Done.Like L) toiled done' ∧ wornTwice.log.remarks = m₁'.log.remarks ∧
        wornTwice.Like L () m₁' := by
  intro L
  have hidle : idle.Like L () idle :=
    ⟨⟨rfl, trivial⟩, ⟨rfl, rfl, rfl, nofun, fun _ => rfl, fun _ => ⟨rfl, rfl⟩, fun _ => trivial,
      fun _ => trivial, nofun, nofun, ⟨nofun, fun _ => trivial⟩⟩, .nil⟩
  have hqueue : (toilers sameHands).Like L (toilers newHands) :=
    .cons ⟨trivial, .toil⟩ (.cons ⟨trivial, .rest⟩ .nil)
  have hjobs : List.Forall₂ (Job.Like L) (toiling sameHands) (toiling newHands) :=
    .cons ⟨rfl, rfl, hqueue⟩ (.cons ⟨rfl, rfl, hqueue⟩ .nil)
  have hdrains : idle.Drains (toiling sameHands) toiled wornTwice :=
    @Machine.Drains.cons _ idle wornOnce wornTwice _ _ _ _ ⟨6, execute_toilers⟩
      (@Machine.Drains.cons _ wornOnce wornTwice wornTwice _ _ _ _ ⟨6, execute_toilers_again⟩ .nil)
  obtain ⟨hqueues, -⟩ := templates_and_builders_are_interchangeable toils_correspond
  obtain ⟨hforth, -⟩ := hqueues hidle hjobs
  exact ⟨toils_correspond, hidle, hjobs, hdrains, hforth toiled wornTwice hdrains⟩

end Workflow
