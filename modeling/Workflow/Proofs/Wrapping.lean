import Workflow.Proofs.Correspondence
import Workflow.Queue.Listing

/-! # Workflow.Proofs.Wrapping

Wrappers around tasks are invisible. A task in a shared wrapper or in an aspect without hooks, or in
a stack of these, has its name and does what it does, only one step later for each wrapper. So it may
stand in for the task wherever that stands.

* `Task.Wraps`: a stack of wrappers and the task in it.
* `Task.Wrapped`: wrappers put around tasks, wherever these stand; one lemma for each place.
* `Likeness.CorrespondsWithin`: tasks that correspond, but for the wrappers that they are in.
* `wrapping_is_invisible`: names, queues, and whatever tasks, queues and containers come to.
-/

namespace Workflow

variable {σ : Domain} {α β κ ρ : Type}

/-! ## Stacks of wrappers -/

namespace Task

/-- A stack of wrappers, which may be none, and the task in it. -/
inductive Wraps : Task σ → Task σ → Prop where
  | none (t : Task σ) : Wraps t t
  | shared {t core : Task σ} : Wraps t core → Wraps (.shared t) core
  | aspect {t core : Task σ} : Wraps t core → Wraps (.aspect t .none .none) core

variable {t core : Task σ}

theorem Wraps.name_eq (h : t.Wraps core) : t.name = core.name := by
  induction h with
  | none => rfl
  | shared _ ih => exact ih
  | aspect _ ih => exact ih

theorem Wraps.trans {u : Task σ} (h : t.Wraps u) (hu : u.Wraps core) : t.Wraps core := by
  induction h with
  | none => exact hu
  | shared _ ih => exact .shared (ih hu)
  | aspect _ ih => exact .aspect (ih hu)

theorem execute_aspect_none (t : Task σ) (fuel : Nat) :
    (aspect t none none).execute (fuel + 1) = t.execute fuel := by
  funext m
  show (t.execute fuel >>= fun result => _) m = _
  cases h : t.execute fuel m with
  | finished result m₁ =>
    rw [Exec.bind_of_finished h]
    cases result <;> rfl
  | blocked c m₁ => exact Exec.bind_of_blocked h _
  | outOfFuel => exact Exec.bind_of_outOfFuel h _

end Task

/-! ## Correspondence within wrappers -/

/-- Whatever tasks are alike, they have the same name, and in their wrappers are tasks whose
outermost layers are alike. -/
structure Likeness.CorrespondsWithin (L : Likeness σ) : Prop where
  name : L.Named
  like : ∀ {t t'}, L.task t t' → ∃ core core', t.Wraps core ∧ t'.Wraps core' ∧ core.Like L core'

section Within

variable {L : Likeness σ} {way : L.Way}

theorem Likeness.CorrespondsWithin.flip (h : L.CorrespondsWithin) :
    L.flip.CorrespondsWithin := by
  refine ⟨fun ht => (h.name ht).symm, fun ht => ?_⟩
  obtain ⟨core, core', hwraps, hwraps', hlike⟩ := h.like ht
  exact ⟨core', core, hwraps', hwraps, hlike.flip⟩

/-- With the fuel for the wrappers, a task in them does what the task does. -/
theorem Exec.Follows.of_wraps {V : α → TaskResult → Prop} {x : Exec σ α} {t core : Task σ}
    (h : t.Wraps core) (hx : Exec.Follows way V x fun n => core.execute n) :
    Exec.Follows way V x fun n => t.execute n := by
  induction h with
  | none => exact hx
  | shared _ ih => exact .of_succ (ih hx)
  | aspect _ ih =>
    refine .of_succ ?_
    simp only [Task.execute_aspect_none]
    exact ih hx

namespace Likeness.CorrespondsWithin

theorem core_follows (hL : L.CorrespondsWithin) {t t' core core' : Task σ} (ht : t.Wraps core)
    (ht' : t'.Wraps core') (hcore : core.Like L core') (way : L.Way) (fuel : Nat) :
    Exec.Follows way Eq (t.execute fuel) fun n => t'.execute n := by
  induction fuel generalizing t t' core core' way with
  | zero => exact .outOfFuel
  | succ fuel ih =>
    -- A wrapper takes one of the fuel, and so does the layer under the last of them.
    cases ht with
    | none =>
      refine .of_wraps ht' (.of_succ (.perform hL.name (fun way u u' hu => ?_) hcore fuel))
      obtain ⟨v, v', hv, hv', hlike⟩ := hL.like hu
      exact ih hv hv' hlike way
    | shared ht => exact ih ht ht' hcore way
    | aspect ht =>
      rw [Task.execute_aspect_none]
      exact ih ht ht' hcore way

theorem execute_follows (hL : L.CorrespondsWithin) {t t' : Task σ} (ht : L.task t t')
    (way : L.Way) (fuel : Nat) : Exec.Follows way Eq (t.execute fuel) fun n => t'.execute n := by
  obtain ⟨core, core', hwraps, hwraps', hlike⟩ := hL.like ht
  exact hL.core_follows hwraps hwraps' hlike way fuel

end Likeness.CorrespondsWithin

end Within

/-! ## Tasks that are the same but for wrappers -/

/-- Everything has to be the same but the identities of tasks, and tasks as `task` says. -/
def wrapping (task : Task σ → Task σ → Prop) : Likeness σ where
  uses _ := True
  knows _ := True
  finds _ _ _ := True
  Way := Unit
  context _ := Eq
  registered := Eq
  state := Eq
  id _ _ := True
  task := task
  enters _ := True
  shares _ := True
  aside _ _ := True
  registered_refl := Eq.refl
  enter := @Likeness.enter_same

namespace Task

/-- One layer of `t'`, once it is taken out of its wrappers, is that of `t`. Of the tasks below the
layer it is only said how `task` relates them. -/
def Covered (task : Task σ → Task σ → Prop) (t t' : Task σ) : Prop :=
  ∃ core, t'.Wraps core ∧ t.Like (wrapping task) core

/-- `t'` is `t` with wrappers put around it and around tasks in it, wherever these stand: in the
queues of branches, loops and switches, whether templates or new ones, inside aspects and shared
wrappers, and in queues that leaves and hooks give to containers. -/
def Wrapped (t t' : Task σ) : Prop :=
  ∃ task : Task σ → Task σ → Prop, task t t' ∧ ∀ {u u'}, task u u' → u.Covered task u'

variable {t t' : Task σ}

theorem Wrapped.covered (h : t.Wrapped t') : t.Covered Wrapped t' := by
  obtain ⟨task, ht, hcovered⟩ := h
  obtain ⟨core, hwraps, hlike⟩ := hcovered ht
  exact ⟨core, hwraps, hlike.mono fun hu => ⟨task, hu, hcovered⟩⟩

theorem Covered.wrapped (h : t.Covered Wrapped t') : t.Wrapped t' := by
  refine ⟨Covered Wrapped, h, fun hu => ?_⟩
  obtain ⟨core, hwraps, hlike⟩ := hu
  exact ⟨core, hwraps, hlike.mono Wrapped.covered⟩

theorem Wrapped.name_eq {t t' : Task σ} (h : t.Wrapped t') : t.name = t'.name := by
  obtain ⟨core, hwraps, hlike⟩ := h.covered
  rw [hwraps.name_eq]
  cases hlike with
  | aspect hinner => exact hinner.name_eq
  | shared hinner => exact hinner.name_eq
  | leaf | conditional | loop | switch | reference => rfl
termination_by sizeOf t

end Task

/-- Tasks, queues and machines that are the same but for wrappers. -/
def wrappings : Likeness σ := wrapping Task.Wrapped

theorem wrappings_correspond : (wrappings : Likeness σ).CorrespondsWithin := by
  refine ⟨Task.Wrapped.name_eq, fun {t t'} ht => ?_⟩
  obtain ⟨core, hwraps, hlike⟩ := Task.Wrapped.covered ht
  exact ⟨t, core, .none t, hwraps, hlike⟩

/-! ## Where wrappers may be put -/

section Self

variable {task : Task σ → Task σ → Prop}

theorem Scope.eq_of_like {s s' : Scope σ} (h : s.Like (wrapping task) () s') : s = s' := by
  obtain ⟨context, state⟩ := s
  cases h.context
  cases h.state
  rfl

theorem Question.like_self (question : Scope σ → Answer σ α) :
    Question.Like (wrapping task) question question := by
  intro way s s' hs
  cases Scope.eq_of_like hs
  exact ⟨rfl, rfl, rfl⟩

theorem Queue.like_self_of_refl (h : ∀ t, task t t) (queue : Queue (Task σ)) :
    queue.Like (wrapping task) queue :=
  Queue.like_self (fun _ => trivial) fun handle _ => h handle.task

theorem Program.like_self (h : ∀ t, task t t) {serves : κ → Prop}
    (hserves : ∀ request, serves request) (p : Program σ (Task σ) κ ρ) :
    p.Like (wrapping task) () serves p := by
  induction p with
  | done result => exact .done result
  | read next ih =>
    refine .read fun s s' hs => ?_
    cases Scope.eq_of_like hs
    exact ih s
  | write scope next ih => exact .write ⟨rfl, rfl⟩ ih
  | remark r next ih => exact .remark r ih
  | find registry name next ih => exact .find registry name fun id _ => ih id
  | create registry r next ih => exact .create registry r fun id _ => ih id
  | addQueue container queue next ih => exact .addQueue trivial (queue.like_self_of_refl h) ih
  | inspect container query next ih => exact .inspect trivial (fun _ => trivial) ih
  | call request next ih => exact .call (hserves request) ih

theorem Factory.like_self (h : ∀ t, task t t) (factory : Factory σ (Task σ)) :
    factory.Like (wrapping task) factory := by
  rintro s _ rfl
  exact ⟨(factory.give s).1.like_self_of_refl h, rfl⟩

theorem Hook.like_self (h : ∀ t, task t t) (hook : Option (Hook σ α)) :
    Option.Rel (Hook.Like (wrapping task)) hook hook := by
  cases hook with
  | none => exact .none
  | some hook => exact .some fun _ => Program.like_self h (fun _ => trivial) hook

theorem Task.like_self (h : ∀ t, task t t) (t : Task σ) : t.Like (wrapping task) t := by
  cases t with
  | leaf name body =>
    refine .leaf fun _ => body.like_self h fun request => ?_
    cases request with
    | execute id => exact trivial
    | run id => exact ⟨trivial, trivial⟩
  | conditional condition thenQueue elseQueue =>
    exact .conditional (Question.like_self condition) (thenQueue.like_self h)
      (elseQueue.like_self h)
  | loop condition limit body => exact .loop (Question.like_self condition) (body.like_self h)
  | switch s =>
    refine .switch (Question.like_self s.selector) fun key => ⟨rfl, ?_⟩
    cases (s.choose key).2 with
    | none => exact .none
    | some queue => exact .some (queue.like_self_of_refl h)
  | aspect inner before after =>
    exact .aspect (h inner) (Hook.like_self h before) (Hook.like_self h after)
  | shared inner => exact .shared (h inner)
  | reference r => exact .reference trivial

end Self

namespace Task.Wrapped

variable {t t' : Task σ} {thenQueue thenQueue' elseQueue elseQueue' : Factory σ (Task σ)}

theorem refl (t : Task σ) : t.Wrapped t := by
  refine ⟨Eq, rfl, fun {u u'} h => ?_⟩
  subst h
  exact ⟨u, .none u, u.like_self Eq.refl⟩

/-- More wrappers around the task itself. -/
theorem of_wraps {outer : Task σ} (h : t.Wrapped t') (houter : outer.Wraps t') :
    t.Wrapped outer := by
  obtain ⟨core, hwraps, hlike⟩ := h.covered
  exact Covered.wrapped ⟨core, houter.trans hwraps, hlike⟩

/-- Wrappers around tasks below. -/
theorem of_like (h : t.Like wrappings t') : t.Wrapped t' := Covered.wrapped ⟨t', .none t', h⟩

theorem conditional (condition : Condition σ) (hthen : thenQueue.Like wrappings thenQueue')
    (helse : elseQueue.Like wrappings elseQueue') :
    (Task.conditional condition thenQueue elseQueue).Wrapped
      (.conditional condition thenQueue' elseQueue') :=
  of_like (.conditional (Question.like_self condition) hthen helse)

theorem loop (condition : Condition σ) (limit : Option Nat) {body body' : Factory σ (Task σ)}
    (hbody : body.Like wrappings body') :
    (Task.loop condition limit body).Wrapped (.loop condition limit body') :=
  of_like (.loop (Question.like_self condition) hbody)

theorem aspect (h : t.Wrapped t') (before : Option (Hook σ Bool)) (after : Option (Hook σ Unit)) :
    (Task.aspect t before after).Wrapped (.aspect t' before after) :=
  of_like (.aspect h (Hook.like_self refl before) (Hook.like_self refl after))

theorem switch (selector : Scope σ → Answer σ σ.Key) {cases cases' : List (σ.Key × Queue (Task σ))}
    (hcases : List.Forall₂ (fun c c' => c.1 = c'.1 ∧ c.2.Like wrappings c'.2) cases cases')
    {fallback fallback' : Option (Queue (Task σ))}
    (hfallback : Option.Rel (Queue.Like wrappings) fallback fallback') :
    (Task.switch ⟨selector, cases, fallback⟩).Wrapped (.switch ⟨selector, cases', fallback'⟩) := by
  have hlookup (key : σ.Key) :
      Option.Rel (Queue.Like wrappings) (cases.lookup key) (cases'.lookup key) := by
    induction hcases with
    | nil => exact .none
    | @cons c c' _ _ hc _ ih =>
      obtain ⟨hkey, hqueue⟩ := hc
      rw [lookup_cons_eq_ite, lookup_cons_eq_ite, hkey]
      split
      · exact .some hqueue
      · exact ih
  refine of_like (.switch (Question.like_self selector) fun key => ?_)
  have hcase := hlookup key
  simp only [Switch.choose, Switch.case?]
  generalize cases.lookup key = queue?, cases'.lookup key = queue?' at hcase
  cases hcase with
  | some hqueue => exact ⟨rfl, .some hqueue⟩
  | none =>
    cases hfallback with
    | some hqueue => exact ⟨rfl, .some hqueue⟩
    | none => exact ⟨rfl, .none⟩

end Task.Wrapped

theorem Factory.like_template {queue queue' : Queue (Task σ)} (h : queue.Like wrappings queue') :
    Factory.Like wrappings (.template queue) (.template queue') := fun _ _ hs => ⟨h, hs⟩

theorem Factory.like_builder {make make' : σ → Queue (Task σ) × σ}
    (h : ∀ s, (make s).1.Like wrappings (make' s).1 ∧ (make s).2 = (make' s).2) :
    Factory.Like wrappings (.builder make) (.builder make') := by
  rintro s _ rfl
  exact h s

/-! ## What they come to -/

theorem ComesTo.follows {L : Likeness σ} {way : L.Way} {V : α → β → Prop} {x : Nat → Exec σ α}
    {y : Nat → Exec σ β} (hx : ∀ fuel, Exec.Follows way V (x fuel) y) {m m' : Machine σ}
    (hm : m.Like L way m') {o : Outcome σ α} (h : ComesTo x m o) :
    ∃ o', ComesTo y m' o' ∧ o.Like way V o' := by
  obtain ⟨hne, fuel, hfuel⟩ := h
  obtain ⟨o', ⟨enough, hy⟩, hlike⟩ := hx fuel m m' hm (hfuel ▸ hne)
  rw [hfuel] at hlike
  refine ⟨o', ⟨?_, enough, hy enough (Nat.le_refl _)⟩, hlike⟩
  rintro rfl
  cases hlike

/-- Each comes to whatever the other comes to, but for wrappers. -/
def ComeToTheSame (V : α → β → Prop) (x : Nat → Exec σ α) (y : Nat → Exec σ β)
    (m m' : Machine σ) : Prop :=
  (∀ o, ComesTo x m o → ∃ o', ComesTo y m' o' ∧ o.Like (L := wrappings) () V o') ∧
  ∀ o', ComesTo y m' o' → ∃ o, ComesTo x m o ∧ o.Like (L := wrappings) () V o'

/-- It is enough that each follows the other. -/
theorem comeToTheSame_of_follows {V : α → β → Prop} {V' : β → α → Prop}
    (hV : ∀ {a b}, V' b a → V a b) {x : Nat → Exec σ α} {y : Nat → Exec σ β}
    (hx : ∀ fuel, Exec.Follows (L := wrappings) () V (x fuel) y)
    (hy : ∀ fuel, Exec.Follows (L := wrappings.flip) () V' (y fuel) x) {m m' : Machine σ}
    (hm : m.Like wrappings () m') : ComeToTheSame V x y m m' := by
  refine ⟨fun o ho => ho.follows hx hm, fun o' ho' => ?_⟩
  obtain ⟨o, ho, hlike⟩ := ho'.follows hy hm.flip
  refine ⟨o, ho, ?_⟩
  cases hlike with
  | finished hv hm => exact .finished (hV hv) hm.flip
  | blocked hm => exact .blocked hm.flip

/-! ## Machines -/

theorem Machine.like_self (m : Machine σ) : m.Like wrappings () m where
  scope := ⟨rfl, rfl⟩
  log := .refl m.log
  store := by
    refine ⟨rfl, rfl, rfl, fun _ => ?_, fun _ => rfl, fun _ => ⟨rfl, rfl⟩, fun _ => trivial,
      fun _ => trivial, fun _ _ => trivial, fun {id} _ => ?_, ⟨fun _ => trivial, fun _ => trivial⟩⟩
    · exact Container.like_self (fun _ => trivial) fun handle _ => Task.Wrapped.refl handle.task
    · cases m.store.object? id with
      | none => exact .none
      | some t => exact .some (Task.Wrapped.refl t)

theorem Queue.Like.names_eq {queue queue' : Queue (Task σ)} (h : queue.Like wrappings queue') :
    queue.names = queue'.names :=
  map_eq_of_forall₂ (fun hhandle => Task.Wrapped.name_eq hhandle.task) h

section Runs

variable {m m' : Machine σ}

theorem Task.Wrapped.follows {t t' : Task σ} (h : t.Wrapped t') (fuel : Nat) :
    Exec.Follows (L := wrappings) () Eq (t.execute fuel) fun n => t'.execute n :=
  wrappings_correspond.execute_follows h () fuel

theorem Task.Wrapped.followed {t t' : Task σ} (h : t.Wrapped t') (fuel : Nat) :
    Exec.Follows (L := wrappings.flip) () Eq (t'.execute fuel) fun n => t.execute n :=
  wrappings_correspond.flip.execute_follows h () fuel

theorem Task.Wrapped.comeToTheSame {t t' : Task σ} (h : t.Wrapped t') (hm : m.Like wrappings () m') :
    ComeToTheSame Eq (fun fuel => t.execute fuel) (fun fuel => t'.execute fuel) m m' :=
  comeToTheSame_of_follows Eq.symm h.follows h.followed hm

theorem Queue.Like.comeToTheSame {queue queue' : Queue (Task σ)} (h : queue.Like wrappings queue')
    (policy : Policy) (hm : m.Like wrappings () m') :
    ComeToTheSame (Drained.Like wrappings) (fun fuel => queue.execute fuel policy)
      (fun fuel => queue'.execute fuel policy) m m' :=
  comeToTheSame_of_follows (fun hd => ⟨hd.result.symm, hd.rest.flip⟩)
    (fun fuel => .drain wrappings_correspond.name (fun _ _ ht => ht.follows fuel) policy none h)
    (fun fuel => .drain wrappings_correspond.flip.name (fun _ _ ht => ht.followed fuel) policy none
      h.flip) hm

theorem Queue.Like.addQueue_comeToTheSame {queue queue' : Queue (Task σ)}
    (h : queue.Like wrappings queue') (id : ContainerId) (hm : m.Like wrappings () m') :
    ComeToTheSame Eq (fun _ => Exec.addQueue id queue) (fun _ => Exec.addQueue id queue') m m' :=
  comeToTheSame_of_follows Eq.symm (fun _ => .addQueue trivial h) (fun _ => .addQueue trivial h.flip)
    hm

theorem ContainerId.execute_comeToTheSame (id : ContainerId) (hm : m.Like wrappings () m') :
    ComeToTheSame Eq (fun fuel => id.execute fuel) (fun fuel => id.execute fuel) m m' :=
  comeToTheSame_of_follows Eq.symm
    (fun fuel => .executeContainer wrappings_correspond.name (fun _ _ ht => ht.follows fuel) trivial
      fuel)
    (fun fuel => .executeContainer wrappings_correspond.flip.name (fun _ _ ht => ht.followed fuel)
      trivial fuel) hm

theorem ContainerId.run_comeToTheSame (id : ContainerId) (hm : m.Like wrappings () m') :
    ComeToTheSame Eq (fun fuel => id.run fuel) (fun fuel => id.run fuel) m m' :=
  comeToTheSame_of_follows Eq.symm
    (fun fuel => .runContainer wrappings_correspond.name (fun _ _ _ ht => ht.follows fuel) trivial
      trivial fuel)
    (fun fuel => .runContainer wrappings_correspond.flip.name (fun _ _ _ ht => ht.followed fuel)
      trivial trivial fuel) hm

end Runs

/-- Wrappers show nowhere. Tasks keep their names and queues their listings, and what tasks, queues
and containers come to is the same on machines that are the same but for wrappers: the result or the
failure with its causes, what observers are shown, the context, and the tasks that are left. The
machines that they leave are again the same but for wrappers, so this goes on with whatever is done
next. -/
theorem wrapping_is_invisible :
    (∀ {t t' : Task σ}, t.Wrapped t' → t'.name = t.name) ∧
    (∀ {queue queue' : Queue (Task σ)}, queue.Like wrappings queue' →
      queue'.names = queue.names ∧
      Listing.inLine queue'.names = Listing.inLine queue.names ∧
      Listing.lines queue'.names = Listing.lines queue.names) ∧
    (∀ m : Machine σ, m.Like wrappings () m) ∧
    (∀ {way} {m m' : Machine σ}, m.Like wrappings way m' →
      m'.context = m.context ∧ m'.state = m.state ∧ m'.log.remarks = m.log.remarks ∧
      ∀ id, (m'.store.container id).queues.map Queue.names =
        (m.store.container id).queues.map Queue.names ∧
        m'.store.contextOf id = m.store.contextOf id) ∧
    ∀ {m m' : Machine σ}, m.Like wrappings () m' →
      (∀ {t t' : Task σ}, t.Wrapped t' →
        ComeToTheSame Eq (fun fuel => t.execute fuel) (fun fuel => t'.execute fuel) m m') ∧
      (∀ {queue queue' : Queue (Task σ)}, queue.Like wrappings queue' →
        (∀ policy, ComeToTheSame (Drained.Like wrappings) (fun fuel => queue.execute fuel policy)
          (fun fuel => queue'.execute fuel policy) m m') ∧
        ∀ id, ComeToTheSame Eq (fun _ => Exec.addQueue id queue)
          (fun _ => Exec.addQueue id queue') m m') ∧
      ∀ id : ContainerId,
        ComeToTheSame Eq (fun fuel => id.execute fuel) (fun fuel => id.execute fuel) m m' ∧
        ComeToTheSame Eq (fun fuel => id.run fuel) (fun fuel => id.run fuel) m m' := by
  refine ⟨fun ht => ht.name_eq.symm, fun hqueue => ?_, Machine.like_self, fun {_ m m'} hm => ?_,
    fun hm => ⟨fun ht => ht.comeToTheSame hm, fun hqueue =>
      ⟨fun policy => hqueue.comeToTheSame policy hm, fun id => hqueue.addQueue_comeToTheSame id hm⟩,
      fun id => ⟨id.execute_comeToTheSame hm, id.run_comeToTheSame hm⟩⟩⟩
  · rw [hqueue.names_eq]
    exact ⟨rfl, rfl, rfl⟩
  · refine ⟨hm.scope.context.symm, hm.scope.state.symm, hm.log.remarks_eq.symm, fun id => ⟨?_, ?_⟩⟩
    · have hcontainer : (m.store.container id).Like wrappings (m'.store.container id) :=
        hm.store.container trivial
      exact (map_eq_of_forall₂ (fun hqueue => hqueue.names_eq) hcontainer.queues).symm
    · exact ((hm.store.contextOf trivial trivial).eq fun h => h).symm

/-! A loop that fails in its second pass, in a gate, a case and a branch, without wrappers and with
wrappers wherever a task stands. -/

def press : Task Unit := .leaf "press" <| .read fun scope =>
  if (scope.context.get? "pressed").isSome then
    .done (.error (.caused "jammed" (.plain "dry")))
  else .write { scope with context := scope.context.insert "pressed" true } (.done (.ok ()))

def pressing (body : Task Unit) : Task Unit :=
  .loop (fun scope => .of scope true) none (.builder fun state => (⟨[⟨⟨0⟩, body⟩]⟩, state))

def gated (t : Task Unit) : Task Unit := .aspect t (some (.done true)) none

def cased (t : Task Unit) : Task Unit :=
  .switch ⟨fun scope => .of scope (.bool true), [(.bool true, ⟨[⟨⟨1⟩, t⟩]⟩)], none⟩

def branching (t : Task Unit) : Task Unit :=
  .conditional (fun scope => .of scope true) (.template ⟨[⟨⟨2⟩, t⟩]⟩) (.template .empty)

def fold : Task Unit := .leaf "fold" (.done (.ok ()))

def bareShift : Queue (Task Unit) :=
  ⟨[⟨⟨3⟩, fold⟩, ⟨⟨4⟩, branching (cased (gated (pressing press)))⟩, ⟨⟨5⟩, fold⟩]⟩

def wrappedShift : Queue (Task Unit) :=
  let looping := Task.shared (pressing (.aspect press none none))
  let casing := Task.shared (.shared (cased (.aspect (gated looping) none none)))
  ⟨[⟨⟨6⟩, .shared fold⟩, ⟨⟨7⟩, .aspect (.shared (branching casing)) none none⟩,
    ⟨⟨8⟩, .shared (.aspect (.shared fold) none none)⟩]⟩

def jam : ExecutionError := .taskFailed "press" (.caused "jammed" (.plain "dry"))

def atStart : Machine Unit := ⟨⟨.empty, ()⟩, Store.empty, #[]⟩

def atJam : Machine Unit :=
  ⟨⟨Context.empty.insert "pressed" true, ()⟩, Store.empty,
    #[.taskStarted none ⟨3⟩ "fold", .leafStarted "fold", .taskStarted none ⟨4⟩ "conditional",
      .branched true, .taskStarted none ⟨2⟩ "switch", .caseMatched "true",
      .taskStarted none ⟨1⟩ "loop", .taskStarted none ⟨0⟩ "press", .leafStarted "press",
      .taskStarted none ⟨0⟩ "press", .leafStarted "press"]⟩

theorem Queue.like_single {t t' : Task Unit} (ht : t.Wrapped t') (id id' : TaskId) :
    Queue.Like wrappings ⟨[⟨id, t⟩]⟩ ⟨[⟨id', t'⟩]⟩ :=
  .cons ⟨trivial, ht⟩ .nil

theorem shifts_alike : bareShift.Like wrappings wrappedShift := by
  have hpress : press.Wrapped (.aspect press none none) :=
    (Task.Wrapped.refl press).of_wraps (.aspect (.none press))
  have hloop : (pressing press).Wrapped (pressing (.aspect press none none)) :=
    .loop _ none (Factory.like_builder fun _ => ⟨Queue.like_single hpress _ _, rfl⟩)
  have hgate : (gated (pressing press)).Wrapped
      (gated (.shared (pressing (.aspect press none none)))) :=
    .aspect (hloop.of_wraps (.shared (.none _))) _ none
  have hcase : (cased (gated (pressing press))).Wrapped
      (cased (.aspect (gated (.shared (pressing (.aspect press none none)))) none none)) := by
    refine .switch _ ?_ .none
    exact .cons ⟨rfl, Queue.like_single (hgate.of_wraps (.aspect (.none _))) _ _⟩ .nil
  have hbranch := Task.Wrapped.conditional (fun scope => .of scope true)
    (Factory.like_template
      (Queue.like_single (hcase.of_wraps (.shared (.shared (.none _)))) ⟨2⟩ ⟨2⟩))
    (Factory.like_template .nil)
  have hfold := (Task.Wrapped.refl fold).of_wraps (.shared (.none _))
  exact .cons ⟨trivial, hfold⟩
    (.cons ⟨trivial, hbranch.of_wraps (.aspect (.shared (.none _)))⟩
      (.cons ⟨trivial, hfold.of_wraps (.shared (.aspect (.none _)))⟩ .nil))

theorem execute_bareShift :
    bareShift.execute 8 .failFast atStart = .finished ⟨.error jam, ⟨[⟨⟨5⟩, fold⟩]⟩⟩ atJam := by
  rfl

theorem shifts_come_to_the_same :
    bareShift.Like wrappings wrappedShift ∧ wrappedShift.names = ["fold", "conditional", "fold"] ∧
    ∃ d m₁, Ends (fun fuel => wrappedShift.execute fuel .failFast) atStart d m₁ ∧
      d.result = .error jam ∧ d.rest.names = ["fold"] ∧ m₁.context = atJam.context ∧
      m₁.log.remarks = atJam.log.remarks := by
  obtain ⟨-, hqueues, hself, hmachines, hruns⟩ := wrapping_is_invisible (σ := Unit)
  obtain ⟨-, hruns, -⟩ := hruns (hself atStart)
  obtain ⟨hpolicies, -⟩ := hruns shifts_alike
  obtain ⟨hforth, -⟩ := hpolicies .failFast
  obtain ⟨o', ⟨-, hends⟩, hlike⟩ := hforth (.finished ⟨.error jam, ⟨[⟨⟨5⟩, fold⟩]⟩⟩ atJam)
    ⟨nofun, 8, execute_bareShift⟩
  cases hlike with
  | @finished _ d _ m₁ hd hm₁ =>
    obtain ⟨hcontext, -, hremarks, -⟩ := hmachines hm₁
    exact ⟨shifts_alike, rfl, d, m₁, hends, hd.result.symm, (hqueues hd.rest).1, hcontext, hremarks⟩

end Workflow
