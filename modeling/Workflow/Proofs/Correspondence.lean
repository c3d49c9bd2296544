import Workflow.Proofs.Fuel
import Workflow.Proofs.Likeness

/-! # Workflow.Proofs.Correspondence

Tasks that correspond step in step, though they are different tasks. If everything that a task asks,
says, writes and builds is alike to what another does, layer by layer, then the two come to the same
result from machines that are alike, and leave machines that are alike.

* `Task.Like`: one layer of two tasks, where the tasks below are only said to be alike.
* `Likeness.Corresponds`: whatever tasks are alike have a layer that is, and so all their layers.
* `Task.Like.mono`: layers stay alike where more tasks are.
* `Exec.Follows`: whatever the one computation comes to, its end or a lock to wait for, the other
  does with fuel enough, and alike; one lemma for each way of putting computations together.
* `Likeness.Corresponds.execute_follows`: tasks that are alike.
-/

namespace Workflow

variable {σ : Domain} {α β γ δ κ ρ : Type}

/-! ## Layers -/

/-- The runs that tasks may ask for. -/
def Likeness.serves (L : Likeness σ) : Call → Prop
  | .execute id => L.uses id
  | .run id => L.uses id ∧ L.enters id

/-- What the factory gives in that state. -/
def Factory.give : Factory σ (Task σ) → σ → Queue (Task σ) × σ
  | .template queue, state => (queue, state)
  | .builder make, state => make state

theorem Factory.build_eq (factory : Factory σ (Task σ)) :
    factory.build = Exec.modifyState factory.give := by
  cases factory <;> rfl

section Like

variable (L : Likeness σ)

/-- Programs that make alike requests. `serves` are the runs that they may ask for. -/
inductive Program.Like (way : L.Way) (serves : κ → Prop) :
    Program σ (Task σ) κ ρ → Program σ (Task σ) κ ρ → Prop where
  | done (result : ρ) : Like way serves (.done result) (.done result)
  | read {next next' : Scope σ → Program σ (Task σ) κ ρ} :
      (∀ s s', s.Like L way s' → Like way serves (next s) (next' s')) →
      Like way serves (.read next) (.read next')
  | write {s s' : Scope σ} {p p' : Program σ (Task σ) κ ρ} :
      s.Like L way s' → Like way serves p p' → Like way serves (.write s p) (.write s' p')
  | remark (r : Remark) {p p' : Program σ (Task σ) κ ρ} :
      Like way serves p p' → Like way serves (.remark r p) (.remark r p')
  | find (registry name : String) {next next' : Option ContainerId → Program σ (Task σ) κ ρ} :
      (∀ id, (∀ c ∈ id, L.finds registry name c) → Like way serves (next id) (next' id)) →
      Like way serves (.find registry name next) (.find registry name next')
  | create (registry : String) (r : Registration)
      {next next' : ContainerId → Program σ (Task σ) κ ρ} :
      (∀ id, L.finds registry r.name id → Like way serves (next id) (next' id)) →
      Like way serves (.create registry r next) (.create registry r next')
  | addQueue {container : ContainerId} {queue queue' : Queue (Task σ)}
      {p p' : Program σ (Task σ) κ ρ} :
      L.uses container → queue.Like L queue' → Like way serves p p' →
      Like way serves (.addQueue container queue p) (.addQueue container queue' p')
  | inspect {container : ContainerId} {query : Query}
      {next next' : query.Answer → Program σ (Task σ) κ ρ} :
      L.uses container → (query = .locked → L.enters container) →
      (∀ answer, Like way serves (next answer) (next' answer)) →
      Like way serves (.inspect container query next) (.inspect container query next')
  | call {request : κ} {next next' : Except ExecutionError Summary → Program σ (Task σ) κ ρ} :
      serves request → (∀ result, Like way serves (next result) (next' result)) →
      Like way serves (.call request next) (.call request next')

def Leaf.Like (body body' : Leaf σ ρ) : Prop :=
  ∀ way, Program.Like L way L.serves body body'

def Hook.Like (hook hook' : Hook σ ρ) : Prop :=
  ∀ way, Program.Like L way (fun _ => True) hook hook'

/-- Asked about scopes that are alike, the questions have one answer. -/
def Question.Like (question question' : Scope σ → Answer σ α) : Prop :=
  ∀ way s s', s.Like L way s' → (question s).value = (question' s').value ∧
    (question s).remarks = (question' s').remarks ∧
      L.state (question s).state (question' s').state

/-- The factories give queues that are alike in states that are. -/
def Factory.Like (factory factory' : Factory σ (Task σ)) : Prop :=
  ∀ s s', L.state s s' → (factory.give s).1.Like L (factory'.give s').1 ∧
    L.state (factory.give s).2 (factory'.give s').2

/-- One layer of two tasks. Of the tasks below it is only said that they are alike. -/
inductive Task.Like : Task σ → Task σ → Prop where
  | leaf {name : String} {body body' : Leaf σ TaskResult} :
      Leaf.Like L body body' → Like (.leaf name body) (.leaf name body')
  | conditional {condition condition' : Condition σ}
      {thenQueue thenQueue' elseQueue elseQueue' : Factory σ (Task σ)} :
      Question.Like L condition condition' → thenQueue.Like L thenQueue' →
      elseQueue.Like L elseQueue' → Like (.conditional condition thenQueue elseQueue)
        (.conditional condition' thenQueue' elseQueue')
  | loop {condition condition' : Condition σ} {limit : Option Nat}
      {body body' : Factory σ (Task σ)} :
      Question.Like L condition condition' → body.Like L body' →
      Like (.loop condition limit body) (.loop condition' limit body')
  | switch {s s' : Switch σ (Task σ)} :
      Question.Like L s.selector s'.selector →
      (∀ key, (s.choose key).1 = (s'.choose key).1 ∧
        Option.Rel (Queue.Like L) (s.choose key).2 (s'.choose key).2) →
      Like (.switch s) (.switch s')
  | aspect {inner inner' : Task σ} {before before' : Option (Hook σ Bool)}
      {after after' : Option (Hook σ Unit)} :
      L.task inner inner' → Option.Rel (Hook.Like L) before before' →
      Option.Rel (Hook.Like L) after after' →
      Like (.aspect inner before after) (.aspect inner' before' after')
  | shared {inner inner' : Task σ} :
      L.task inner inner' → Like (.shared inner) (.shared inner')
  | reference {r : Reference} : L.knows r.id → Like (.reference r) (.reference r)

/-- Tasks that are alike have the same name. -/
def Likeness.Named : Prop := ∀ {t t' : Task σ}, L.task t t' → t.name = t'.name

/-- Whatever tasks are alike, they have the same name and their outermost layers are alike. -/
structure Likeness.Corresponds : Prop where
  name : ∀ {t t'}, L.task t t' → t.name = t'.name
  like : ∀ {t t'}, L.task t t' → t.Like L t'

end Like

/-! ## The same seen from the other side -/

section Flip

variable {L : Likeness σ}

theorem Program.Like.flip {way : L.Way} {serves : κ → Prop} {p p' : Program σ (Task σ) κ ρ}
    (h : p.Like L way serves p') : p'.Like L.flip way serves p := by
  induction h with
  | done result => exact .done result
  | read _ ih => exact .read fun s s' hs => ih s' s ⟨hs.context, hs.state⟩
  | write hs _ ih => exact .write hs.flip ih
  | remark r _ ih => exact .remark r ih
  | find registry name _ ih => exact .find registry name ih
  | create registry r _ ih => exact .create registry r ih
  | addQueue hid hqueue _ ih => exact .addQueue hid hqueue.flip ih
  | inspect hid hquery _ ih => exact .inspect hid hquery ih
  | call hrequest _ ih => exact .call hrequest ih

theorem Question.Like.flip {question question' : Scope σ → Answer σ α}
    (h : Question.Like L question question') : Question.Like L.flip question' question := by
  intro way s s' hs
  obtain ⟨hvalue, hremarks, hstate⟩ := h way s' s ⟨hs.context, hs.state⟩
  exact ⟨hvalue.symm, hremarks.symm, hstate⟩

theorem Factory.Like.flip {factory factory' : Factory σ (Task σ)} (h : factory.Like L factory') :
    factory'.Like L.flip factory := by
  intro s s' hs
  obtain ⟨hqueue, hstate⟩ := h s' s hs
  exact ⟨hqueue.flip, hstate⟩

theorem Hook.Like.flip {hook hook' : Hook σ ρ} (h : Hook.Like L hook hook') :
    Hook.Like L.flip hook' hook := fun way => (h way).flip

theorem Task.Like.flip {t t' : Task σ} (h : t.Like L t') : t'.Like L.flip t := by
  cases h with
  | leaf hbody => exact .leaf fun way => (hbody way).flip
  | conditional hcondition hthen helse => exact .conditional hcondition.flip hthen.flip helse.flip
  | loop hcondition hbody => exact .loop hcondition.flip hbody.flip
  | switch hselector hchoose =>
    exact .switch hselector.flip fun key =>
      ⟨(hchoose key).1.symm, optionRel_flip Queue.Like.flip (hchoose key).2⟩
  | aspect hinner hbefore hafter =>
    exact .aspect hinner (optionRel_flip Hook.Like.flip hbefore)
      (optionRel_flip Hook.Like.flip hafter)
  | shared hinner => exact .shared hinner
  | reference hid => exact .reference hid

theorem Likeness.Corresponds.flip (h : L.Corresponds) : L.flip.Corresponds :=
  ⟨fun ht => (h.name ht).symm, fun ht => (h.like ht).flip⟩

end Flip

/-! ## More tasks that are alike -/

/-- The likeness under which other tasks are alike. -/
def Likeness.withTask (L : Likeness σ) (task : Task σ → Task σ → Prop) : Likeness σ :=
  { L with task }

section Mono

variable {L : Likeness σ} {task : Task σ → Task σ → Prop}

theorem Queue.Like.mono (hle : ∀ {t t'}, L.task t t' → task t t') {queue queue' : Queue (Task σ)}
    (h : queue.Like L queue') : queue.Like (L.withTask task) queue' :=
  List.Forall₂.imp (fun _ _ hhandle => ⟨hhandle.id, hle hhandle.task⟩) h

theorem Program.Like.mono (hle : ∀ {t t'}, L.task t t' → task t t') {way : L.Way}
    {serves : κ → Prop} {p p' : Program σ (Task σ) κ ρ} (h : p.Like L way serves p') :
    p.Like (L.withTask task) way serves p' := by
  induction h with
  | done result => exact .done result
  | read _ ih => exact .read fun s s' hs => ih s s' ⟨hs.context, hs.state⟩
  | write hs _ ih => exact .write ⟨hs.context, hs.state⟩ ih
  | remark r _ ih => exact .remark r ih
  | find registry name _ ih => exact .find registry name ih
  | create registry r _ ih => exact .create registry r ih
  | addQueue hid hqueue _ ih => exact .addQueue hid (hqueue.mono hle) ih
  | inspect hid hquery _ ih => exact .inspect hid hquery ih
  | call hrequest _ ih => exact .call hrequest ih

theorem Question.Like.mono {question question' : Scope σ → Answer σ α}
    (h : Question.Like L question question') :
    Question.Like (L.withTask task) question question' :=
  fun way s s' hs => h way s s' ⟨hs.context, hs.state⟩

theorem Factory.Like.mono (hle : ∀ {t t'}, L.task t t' → task t t')
    {factory factory' : Factory σ (Task σ)} (h : factory.Like L factory') :
    factory.Like (L.withTask task) factory' :=
  fun s s' hs => ⟨(h s s' hs).1.mono hle, (h s s' hs).2⟩

theorem Hook.Like.mono (hle : ∀ {t t'}, L.task t t' → task t t') {hook hook' : Hook σ ρ}
    (h : Hook.Like L hook hook') : Hook.Like (L.withTask task) hook hook' :=
  fun way => (h way).mono hle

theorem Task.Like.mono (hle : ∀ {t t'}, L.task t t' → task t t') {t t' : Task σ}
    (h : t.Like L t') : t.Like (L.withTask task) t' := by
  cases h with
  | leaf hbody => exact .leaf fun way => (hbody way).mono hle
  | conditional hcondition hthen helse =>
    exact .conditional hcondition.mono (hthen.mono hle) (helse.mono hle)
  | loop hcondition hbody => exact .loop hcondition.mono (hbody.mono hle)
  | switch hselector hchoose =>
    exact .switch hselector.mono fun key =>
      ⟨(hchoose key).1, optionRel_imp (Queue.Like.mono hle) (hchoose key).2⟩
  | aspect hinner hbefore hafter =>
    exact .aspect (hle hinner) (optionRel_imp (Hook.Like.mono hle) hbefore)
      (optionRel_imp (Hook.Like.mono hle) hafter)
  | shared hinner => exact .shared (hle hinner)
  | reference hid => exact .reference hid

end Mono

/-! ## Computations -/

variable {L : Likeness σ} {way : L.Way}

/-- Outcomes that are alike: ends with values that `V` relates, or waits for the lock of the same
container. The context at hand then is that of the run that waits, alike in a way of its own. -/
inductive Outcome.Like (way : L.Way) (V : α → β → Prop) : Outcome σ α → Outcome σ β → Prop where
  | finished {v : α} {v' : β} {m m' : Machine σ} :
      V v v' → m.Like L way m' → Like way V (.finished v m) (.finished v' m')
  | blocked {way' : L.Way} {c : ContainerId} {m m' : Machine σ} :
      m.Like L way' m' → Like way V (.blocked c m) (.blocked c m')

/-- Whatever `x` comes to, `y` comes to it with fuel enough from every machine that is alike, with a
value that `V` relates to that of `x`, and at a machine that is alike. -/
def Exec.Follows (way : L.Way) (V : α → β → Prop) (x : Exec σ α) (y : Nat → Exec σ β) : Prop :=
  ∀ m m', m.Like L way m' → x m ≠ .outOfFuel →
    ∃ o, Eventually y m' o ∧ (x m).Like way V o

/-- What drains leave is alike, after the same result. -/
structure Drained.Like (L : Likeness σ) (d d' : Drained σ) : Prop where
  result : d.result = d'.result
  rest : d.rest.Like L d'.rest

theorem Drained.Like.after {d d' : Drained σ} (h : d.Like L d') (summary : Summary) :
    (d.after summary).Like L (d'.after summary) :=
  ⟨congrArg (Except.map (summary ++ ·)) h.result, h.rest⟩

theorem Drained.Like.eq {d d' : Drained σ} (h : d.Like L d')
    (hid : ∀ {i i'}, L.id i i' → i = i') (htask : ∀ {t t'}, L.task t t' → t = t') : d = d' := by
  have hrest : d.rest = d'.rest := h.rest.eq hid htask
  obtain ⟨result, rest⟩ := d
  cases h.result
  cases hrest
  rfl

namespace Exec.Follows

variable {V : α → β → Prop} {W : γ → δ → Prop} {x : Exec σ α} {y : Nat → Exec σ β}

/-- One step on both sides, which takes no fuel. -/
theorem step {y : Exec σ β} (h : ∀ {m m'}, m.Like L way m' → (x m).Like way V (y m')) :
    Follows way V x fun _ => y :=
  fun _ m' hm _ => ⟨y m', .always fun _ => rfl, h hm⟩

theorem pure {v : α} {w : β} (h : V v w) :
    Follows way V (pure v : Exec σ α) fun _ => (pure w : Exec σ β) :=
  step fun hm => .finished h hm

theorem outOfFuel : Follows way V (Exec.outOfFuel : Exec σ α) y :=
  fun _ _ _ hx => absurd rfl hx

theorem bind {f : α → Exec σ γ} {g : Nat → β → Exec σ δ} (hx : Follows way V x y)
    (hf : ∀ a b, V a b → Follows way W (f a) fun n => g n b) :
    Follows way W (x >>= f) fun n => y n >>= g n := by
  intro m m' hm hne
  have hxne : x m ≠ .outOfFuel := fun hout => hne (bind_of_outOfFuel hout f)
  obtain ⟨o, hy, hlike⟩ := hx m m' hm hxne
  generalize hxm : x m = o₁ at hlike
  cases hlike with
  | @finished a b m₁ m₁' hab hm₁ =>
    rw [bind_of_finished hxm] at hne ⊢
    obtain ⟨o', hg, hlike'⟩ := hf a b hab m₁ m₁' hm₁ hne
    exact ⟨o', hy.bind hg, hlike'⟩
  | blocked hm₁ =>
    rw [bind_of_blocked hxm]
    exact ⟨_, hy.bind_of_blocked, .blocked hm₁⟩

/-- The values that are handed on are the same. -/
theorem bind_eq {x : Exec σ α} {y : Nat → Exec σ α} {f : α → Exec σ γ} {g : Nat → α → Exec σ δ}
    (hx : Follows way Eq x y) (hf : ∀ a, Follows way W (f a) fun n => g n a) :
    Follows way W (x >>= f) fun n => y n >>= g n :=
  bind hx fun a b hab => by
    subst hab
    exact hf a

theorem of_succ (h : Follows way V x fun n => y (n + 1)) : Follows way V x y := by
  intro m m' hm hne
  obtain ⟨o, hy, hlike⟩ := h m m' hm hne
  exact ⟨o, hy.of_succ, hlike⟩

theorem succ (h : Follows way V x y) : Follows way V x fun n => y (n + 1) := by
  intro m m' hm hne
  obtain ⟨o, hy, hlike⟩ := h m m' hm hne
  exact ⟨o, hy.succ, hlike⟩

theorem emit {e e' : Event} (h : e.Like L e') :
    Follows way Eq (Exec.emit (σ := σ) e) fun _ => Exec.emit e' :=
  step fun hm => .finished rfl ⟨hm.scope, hm.store, hm.log.push h⟩

theorem emit_same (e : Event) : Follows way Eq (Exec.emit (σ := σ) e) fun _ => Exec.emit e :=
  emit (.refl e)

theorem ask {question question' : Scope σ → Answer σ α} (h : Question.Like L question question') :
    Follows way Eq (Exec.ask question) fun _ => Exec.ask question' := by
  refine step fun {m m'} hm => ?_
  obtain ⟨hvalue, hremarks, hstate⟩ := h way _ _ hm.scope
  refine .finished hvalue ⟨⟨hm.scope.context, hstate⟩, hm.store, ?_⟩
  show Log.Like L _ _
  rw [← hremarks, Log.foldl_push_remark, Log.foldl_push_remark]
  simpa [Log.Like] using List.rel_append hm.log (List.forall₂_same.2 fun e _ => .refl e)

theorem build {factory factory' : Factory σ (Task σ)} (h : factory.Like L factory') :
    Follows way (Queue.Like L) factory.build fun _ => factory'.build := by
  rw [Factory.build_eq, Factory.build_eq]
  refine step fun {m m'} hm => ?_
  obtain ⟨hqueue, hstate⟩ := h _ _ hm.scope.state
  exact .finished hqueue ⟨⟨hm.scope.context, hstate⟩, hm.store, hm.log⟩

theorem look {f : Store σ → α} {f' : Store σ → β}
    (h : ∀ {s s' : Store σ}, s.Like L s' → V (f s) (f' s')) :
    Follows way V (Exec.look f) fun _ => Exec.look f' :=
  step fun hm => .finished (h hm.store) hm

theorem setScope {s s' : Scope σ} (h : s.Like L way s') :
    Follows way Eq (Exec.setScope s) fun _ => Exec.setScope s' :=
  step fun hm => .finished rfl ⟨h, hm.store, hm.log⟩

theorem create (registry : String) (r : Registration) :
    Follows way (fun id id' => id = id' ∧ L.finds registry r.name id)
      (Exec.create (σ := σ) registry r) fun _ => Exec.create registry r := by
  refine step fun {m m'} hm => ?_
  obtain ⟨hfind, -⟩ := hm.store.find? registry r.name
  cases hfound : m.store.find? registry r.name with
  | some id =>
    rw [create_of_some hfound, create_of_some (hfind.symm.trans hfound)]
    exact .finished ⟨rfl, hm.store.names.found hfound⟩ ⟨hm.scope, hm.store, hm.log.push (.refl _)⟩
  | none =>
    rw [create_of_none hfound, create_of_none (hfind.symm.trans hfound)]
    obtain ⟨hnew, hstore⟩ := hm.store.register registry r
    exact .finished ⟨hnew, hm.store.names.found_new (Nat.lt_irrefl _)⟩
      ⟨hm.scope, hstore, hm.log.push (.refl _)⟩

theorem addQueue {id : ContainerId} (hid : L.uses id) {queue queue' : Queue (Task σ)}
    (h : queue.Like L queue') :
    Follows way Eq (Exec.addQueue id queue) fun _ => Exec.addQueue id queue' := by
  refine step fun {m m'} hm => ?_
  refine .finished rfl ⟨hm.scope, hm.store.addQueue hid h, hm.log.push ?_⟩
  rw [(hm.store.container hid).name]
  exact .queueAdded h.ids

theorem inspect {id : ContainerId} (hid : L.uses id) {query : Query}
    (hquery : query = .locked → L.enters id) :
    Follows way Eq (Exec.inspect (σ := σ) id query) fun _ => Exec.inspect id query :=
  step fun hm => .finished (hm.store.answer hid hquery) ⟨hm.scope, hm.store, hm.log.push (.refl _)⟩

theorem program {serves : κ → Prop} {call : κ → Exec σ RunResult}
    {call' : Nat → κ → Exec σ RunResult}
    (hcall : ∀ request, serves request →
      Follows way Eq (call request) fun n => call' n request)
    {p p' : Program σ (Task σ) κ ρ} (h : p.Like L way serves p') :
    Follows way Eq (p.exec call) fun n => p'.exec (call' n) := by
  induction h with
  | done result => exact pure rfl
  | read _ ih =>
    -- The two read scopes of their own, and go on with them.
    have hscope : Follows way (Scope.Like L way) Exec.scope fun _ => Exec.scope :=
      step fun hm => .finished hm.scope hm
    exact bind hscope ih
  | write hs _ ih => exact bind_eq (setScope hs) fun _ => ih
  | remark r _ ih => exact bind_eq (emit_same _) fun _ => ih
  | find registry name _ ih =>
    refine bind (V := fun id id' => id = id' ∧ ∀ c ∈ id, L.finds registry name c)
      (look fun hs => hs.find? registry name) ?_
    rintro id _ ⟨rfl, hfinds⟩
    exact ih id hfinds
  | create registry r _ ih =>
    refine bind (create registry r) ?_
    rintro id _ ⟨rfl, hfinds⟩
    exact ih id hfinds
  | addQueue hid hqueue _ ih => exact bind_eq (addQueue hid hqueue) fun _ => ih
  | inspect hid hquery _ ih => exact bind_eq (inspect hid hquery) ih
  | call hrequest _ ih => exact bind_eq (hcall _ hrequest) ih

/-! ### The engine -/

section Engine

variable {execute : Task σ → Exec σ TaskResult} {execute' : Nat → Task σ → Exec σ TaskResult}
  {queue queue' : Queue (Task σ)} {id : ContainerId}

theorem drain (hname : L.Named)
    (hexec : ∀ t t', L.task t t' → Follows way Eq (execute t) fun n => execute' n t')
    (policy : Policy) (origin : Option ContainerId) {handles handles' : List (Handle (Task σ))}
    (h : List.Forall₂ (Handle.Like L) handles handles') :
    Follows way (Drained.Like L) (drain execute policy origin handles) fun n =>
      drain (execute' n) policy origin handles' := by
  induction h with
  | nil => exact pure ⟨rfl, .nil⟩
  | @cons handle handle' rest rest' hhandle hrest ih =>
    simp only [Workflow.drain]
    rw [hname hhandle.task]
    refine bind_eq (emit (.taskStarted hhandle.id)) fun _ => ?_
    refine bind_eq (hexec _ _ hhandle.task) fun result => ?_
    cases result with
    | ok => exact bind ih fun d d' hd => pure (hd.after _)
    | error error =>
      cases policy with
      | failFast => exact pure ⟨rfl, hrest⟩
      | keepGoing =>
        exact bind_eq (emit_same _) fun _ => bind ih fun d d' hd => pure (hd.after _)

theorem drainWithin (hname : L.Named)
    (hexec : ∀ t t', L.task t t' → Follows way Eq (execute t) fun n => execute' n t')
    (h : queue.Like L queue') :
    Follows way Eq (drainWithin execute queue) fun n => drainWithin (execute' n) queue' := by
  refine bind (drain hname hexec _ _ h) fun d d' hd => pure ?_
  rw [hd.result]

/-- The passes of a loop. Each takes fuel from the tasks in the body of the other loop too, so the
induction goes over all ways of executing them. -/
theorem iterate (hname : L.Named)
    (hexec : ∀ t t', L.task t t' → Follows way Eq (execute t) fun n => execute' n t')
    (name : String) {condition condition' : Condition σ} (limit : Option Nat)
    {body body' : Factory σ (Task σ)} (hcondition : Question.Like L condition condition')
    (hbody : body.Like L body') (iterations fuel : Nat) :
    Follows way Eq (iterate execute name condition limit body iterations fuel) fun n =>
      iterate (execute' n) name condition' limit body' iterations n := by
  induction fuel generalizing iterations execute' with
  | zero => exact outOfFuel
  | succ fuel ih =>
    refine of_succ (bind_eq (ask hcondition) fun holds => ?_)
    cases holds with
    | false => exact bind_eq (emit_same _) fun _ => pure rfl
    | true =>
      simp only [if_true]
      cases limit.filter (· ≤ iterations) with
      | some limit => exact pure rfl
      | none =>
        refine bind (build hbody) fun queue queue' hqueue => ?_
        have hexec' : ∀ t t', L.task t t' →
            Follows way Eq (execute t) fun n => execute' (n + 1) t' :=
          fun t t' ht => (hexec t t' ht).succ
        refine bind_eq (drainWithin hname hexec' hqueue) fun result => ?_
        cases result with
        | ok => exact ih hexec' (iterations + 1)
        | error error => exact pure rfl

theorem takeQueue (hid : L.uses id) :
    Follows way (Option.Rel (Queue.Like L)) (Exec.takeQueue id) fun _ => Exec.takeQueue id := by
  refine step fun {m m'} hm => ?_
  have hqueues := (hm.store.container hid).queues
  cases hleft : (m.store.container id).queues with
  | nil =>
    rw [hleft, List.forall₂_nil_left_iff] at hqueues
    rw [takeQueue_of_nil hleft, takeQueue_of_nil hqueues]
    exact .finished .none hm
  | cons queue rest =>
    rw [hleft] at hqueues
    obtain ⟨queue', rest', hqueue, hrest, hright⟩ := List.forall₂_cons_left_iff.1 hqueues
    rw [takeQueue_of_cons hleft, takeQueue_of_cons hright]
    exact .finished (.some hqueue) ⟨hm.scope,
      hm.store.modifyQueues hid (fun _ => rest) (fun _ => rest') fun _ => hrest, hm.log⟩

theorem returnQueue (hid : L.uses id) (h : queue.Like L queue') :
    Follows way Eq (Exec.returnQueue id queue) fun _ => Exec.returnQueue id queue' :=
  step fun hm => .finished rfl ⟨hm.scope, hm.store.returnQueue hid h, hm.log⟩

theorem drainContainer (hname : L.Named)
    (hexec : ∀ t t', L.task t t' → Follows way Eq (execute t) fun n => execute' n t')
    (hid : L.uses id) (fuel : Nat) :
    Follows way Eq (drainContainer execute id fuel) fun n => drainContainer (execute' n) id n := by
  induction fuel generalizing execute' with
  | zero => exact outOfFuel
  | succ fuel ih =>
    refine of_succ (bind (takeQueue hid) fun queue? queue?' hqueue => ?_)
    cases hqueue with
    | none => exact pure rfl
    | some hqueue =>
      have hexec' : ∀ t t', L.task t t' →
          Follows way Eq (execute t) fun n => execute' (n + 1) t' :=
        fun t t' ht => (hexec t t' ht).succ
      refine bind_eq (look fun hs => (hs.container hid).policy) fun policy => ?_
      refine bind (drain hname hexec' policy (some id) hqueue) fun d d' hd => ?_
      rw [← hd.result]
      cases d.result with
      | ok summary => exact bind_eq (ih hexec') fun result => pure rfl
      | error failure => exact bind_eq (returnQueue hid hd.rest) fun _ => pure rfl

theorem executeContainer (hname : L.Named)
    (hexec : ∀ t t', L.task t t' → Follows way Eq (execute t) fun n => execute' n t')
    (hid : L.uses id) (fuel : Nat) :
    Follows way Eq (executeContainer execute fuel id) fun n =>
      executeContainer (execute' n) n id := by
  refine bind_eq (look fun hs => (hs.container hid).name) fun name => ?_
  refine bind_eq (emit_same _) fun _ => ?_
  refine bind_eq (drainContainer hname hexec hid fuel) fun result => ?_
  cases result with
  | ok summary => exact bind_eq (emit_same _) fun _ => pure rfl
  | error failure => exact pure rfl

/-- The registered contexts are alike in a way of their own, in which the run finds them and gives
them back. -/
theorem runContainer (hname : L.Named)
    (hexec : ∀ (way : L.Way) t t', L.task t t' → Follows way Eq (execute t) fun n => execute' n t')
    (hid : L.uses id) (henters : L.enters id) (fuel : Nat) :
    Follows way Eq (runContainer execute fuel id) fun n => runContainer (execute' n) n id := by
  intro m m' hm hne
  have hshared := hm.store.contextOf hid henters
  have hcontext := (hm.store.container hid).context
  cases hlocked : (m.store.contextOf id).locked with
  | true =>
    have hlocked' : (m'.store.contextOf id).locked = true := by rw [← hshared.locked, hlocked]
    rw [runContainer_of_locked hlocked]
    exact ⟨_, .always fun n => runContainer_of_locked hlocked' n, .blocked hm⟩
  | false =>
    have hlocked' : (m'.store.contextOf id).locked = false := by rw [← hshared.locked, hlocked]
    obtain ⟨way', henter, hback⟩ := L.enter hshared.content
    have hheld : (m.held id).Like L way' (m'.held id) := by
      refine ⟨⟨henter, hm.scope.state⟩, ?_, hm.log⟩
      simp only [Machine.held, ← hcontext]
      exact hm.store.modifyContext (hm.store.shares_entered hid henters) fun hc => ⟨hc.content, rfl⟩
    have hgiven {m₁ m₁' : Machine σ} (hm₁ : m₁.Like L way' m₁') :
        (m₁.released id m.context).Like L way (m₁'.released id m'.context) := by
      refine ⟨⟨hm.scope.context, hm₁.scope.state⟩, ?_, hm₁.log⟩
      simp only [Machine.released, Store.unlock, ← (hm₁.store.container hid).context]
      exact hm₁.store.modifyContext (hm₁.store.shares_entered hid henters) fun _ =>
        ⟨hback hm₁.scope.context, rfl⟩
    have hrun : Workflow.executeContainer execute fuel id (m.held id) ≠ .outOfFuel := fun hout =>
      hne ((runContainer_of_free hlocked fuel).trans (bind_of_outOfFuel hout _))
    obtain ⟨o, ⟨enough, hright⟩, hlike⟩ :=
      executeContainer hname (hexec way') hid fuel _ _ hheld hrun
    generalize hleft : Workflow.executeContainer execute fuel id (m.held id) = o₁ at hlike
    cases hlike with
    | @finished r r' m₁ m₁' hr hm₁ =>
      have hend : Workflow.runContainer execute fuel id m =
          .finished r (m₁.released id m.context) :=
        (runContainer_of_free hlocked fuel).trans (bind_of_finished hleft)
      rw [hend]
      refine ⟨_, ⟨enough, fun n hle => ?_⟩, .finished hr (hgiven hm₁)⟩
      exact (runContainer_of_free hlocked' n).trans (bind_of_finished (hright n hle))
    | @blocked _ c m₁ m₁' hm₁ =>
      have hwait : Workflow.runContainer execute fuel id m = .blocked c m₁ :=
        (runContainer_of_free hlocked fuel).trans (bind_of_blocked hleft _)
      rw [hwait]
      refine ⟨_, ⟨enough, fun n hle => ?_⟩, .blocked hm₁⟩
      exact (runContainer_of_free hlocked' n).trans (bind_of_blocked (hright n hle) _)

/-- One layer of two tasks, from the tasks below. -/
theorem perform (hname : L.Named)
    (hexec : ∀ (way : L.Way) t t', L.task t t' → Follows way Eq (execute t) fun n => execute' n t')
    {t t' : Task σ} (ht : t.Like L t') (fuel : Nat) :
    Follows way Eq (t.perform execute fuel) fun n => t'.perform (execute' n) n := by
  cases ht with
  | leaf hbody =>
    have hcall : ∀ request : Call, L.serves request →
        Follows way Eq (request.answer execute fuel) fun n => request.answer (execute' n) n := by
      intro request hserves
      cases request with
      | execute id => exact executeContainer hname (hexec way) hserves fuel
      | run id => exact runContainer hname hexec hserves.1 hserves.2 fuel
    exact bind_eq (emit_same _) fun _ => program hcall (hbody way)
  | conditional hcondition hthen helse =>
    refine bind_eq (ask hcondition) fun holds => bind_eq (emit_same _) fun _ => ?_
    cases holds with
    | true => exact bind (build hthen) fun _ _ hqueue => drainWithin hname (hexec way) hqueue
    | false => exact bind (build helse) fun _ _ hqueue => drainWithin hname (hexec way) hqueue
  | loop hcondition hbody => exact iterate hname (hexec way) _ _ hcondition hbody 0 fuel
  | @switch s s' hselector hchoose =>
    refine bind_eq (ask hselector) fun key => ?_
    obtain ⟨hevent, hqueue⟩ := hchoose key
    rcases hs : s.choose key with ⟨event, queue?⟩
    rcases hs' : s'.choose key with ⟨event', queue?'⟩
    rw [hs, hs'] at hevent hqueue
    cases hevent
    refine bind_eq (emit_same event) fun _ => ?_
    cases hqueue with
    | none => exact pure rfl
    | some hqueue => exact drainWithin hname (hexec way) hqueue
  | @aspect inner inner' before before' after after' hinner hbefore hafter =>
    have hhook {ρ : Type} {hook hook' : Hook σ ρ} (h : Hook.Like L hook hook') :
        Follows way Eq (Task.performHook hook) fun _ => Task.performHook hook' :=
      program (fun request => nomatch request) (h way)
    have hopens : Follows way Eq (Task.opens before) fun _ => Task.opens before' := by
      cases hbefore with
      | none => exact pure rfl
      | some h => exact hhook h
    refine bind_eq hopens fun isOpen => ?_
    cases isOpen with
    | false =>
      simp only [Bool.false_eq_true, if_false, hname hinner]
      exact bind_eq (emit_same _) fun _ => pure rfl
    | true =>
      refine bind_eq (hexec way _ _ hinner) fun result => ?_
      cases result with
      | error error => exact pure rfl
      | ok =>
        cases hafter with
        | none => exact pure rfl
        | some h => exact bind_eq (hhook h) fun _ => pure rfl
  | shared hinner => exact hexec way _ _ hinner
  | reference hid =>
    refine bind (look fun hs => hs.object hid) fun t? t?' ht => ?_
    cases ht with
    | none => exact pure rfl
    | some ht => exact hexec way _ _ ht

end Engine

end Exec.Follows

namespace Likeness.Corresponds

theorem execute_follows (hL : L.Corresponds) {t t' : Task σ} (ht : L.task t t') (way : L.Way)
    (fuel : Nat) : Exec.Follows way Eq (t.execute fuel) fun n => t'.execute n := by
  induction fuel generalizing t t' way with
  | zero => exact .outOfFuel
  | succ fuel ih =>
    exact .of_succ (.perform hL.name (fun way t t' ht => ih ht way) (hL.like ht) fuel)

end Likeness.Corresponds

/-! ## Queues and containers -/

theorem Queue.execute_follows (hL : L.Corresponds) {queue queue' : Queue (Task σ)}
    (hqueue : queue.Like L queue') (policy : Policy) (way : L.Way) (fuel : Nat) :
    Exec.Follows way (Drained.Like L) (queue.execute fuel policy) fun n =>
      queue'.execute n policy :=
  .drain hL.name (fun _ _ ht => hL.execute_follows ht way fuel) policy none hqueue

theorem ContainerId.execute_follows (hL : L.Corresponds) {id : ContainerId} (hid : L.uses id)
    (way : L.Way) (fuel : Nat) :
    Exec.Follows way Eq (id.execute fuel) fun n => id.execute (σ := σ) n :=
  .executeContainer hL.name (fun _ _ ht => hL.execute_follows ht way fuel) hid fuel

theorem ContainerId.run_follows (hL : L.Corresponds) {id : ContainerId} (hid : L.uses id)
    (henters : L.enters id) (way : L.Way) (fuel : Nat) :
    Exec.Follows way Eq (id.run fuel) fun n => id.run (σ := σ) n :=
  .runContainer hL.name (fun way _ _ ht => hL.execute_follows ht way fuel) hid henters fuel

namespace Ends

variable {V : α → β → Prop} {x : Nat → Exec σ α} {y : Nat → Exec σ β} {m m' m₁ m₁' : Machine σ}
  {v : α} {w : β}

theorem follows (hx : ∀ fuel, Exec.Follows way V (x fuel) y) (hm : m.Like L way m')
    (h : Ends x m v m₁) : ∃ w m₁', Ends y m' w m₁' ∧ V v w ∧ m₁.Like L way m₁' := by
  obtain ⟨fuel, h⟩ := h
  obtain ⟨o, ⟨enough, hends⟩, hlike⟩ := hx fuel m m' hm (by rw [h]; nofun)
  rw [h] at hlike
  cases hlike with
  | finished hv hm₁ => exact ⟨_, _, ⟨enough, hends enough (Nat.le_refl _)⟩, hv, hm₁⟩

/-- There is one end for the other computation to come to. -/
theorem like (hx : ∀ fuel, Exec.Follows way V (x fuel) y) (hy : Rising y) (hm : m.Like L way m')
    (h : Ends x m v m₁) (h' : Ends y m' w m₁') : V v w ∧ m₁.Like L way m₁' := by
  obtain ⟨w', m₁'', hends, hv, hm₁⟩ := h.follows hx hm
  obtain ⟨rfl, rfl⟩ := h'.deterministic hy hends
  exact ⟨hv, hm₁⟩

/-- Each follows the other, so the one comes to an end if the other does. -/
theorem exists_iff {L' : Likeness σ} {way' : L'.Way} {V' : β → α → Prop}
    (hx : ∀ fuel, Exec.Follows way V (x fuel) y) (hm : m.Like L way m')
    (hy : ∀ fuel, Exec.Follows way' V' (y fuel) x) (hm' : m'.Like L' way' m) :
    (∃ v m₁, Ends x m v m₁) ↔ ∃ w m₁', Ends y m' w m₁' := by
  constructor
  · rintro ⟨v, m₁, h⟩
    obtain ⟨w, m₁', hends, -, -⟩ := h.follows hx hm
    exact ⟨w, m₁', hends⟩
  · rintro ⟨w, m₁', h⟩
    obtain ⟨v, m₁, hends, -, -⟩ := h.follows hy hm'
    exact ⟨v, m₁, hends⟩

end Ends
end Workflow
