import Workflow.Proofs.Correspondence

/-! # Workflow.Proofs.Footprint

The engine adds no effects on the context of its own. If the tasks of a workflow look at some keys
only, and write under no others, then so does the whole workflow. Executions on two contexts that
agree on these keys march in step, and what stands under the other keys stays as it is.

* `footprint`: the likeness under which a task keeps to keys when it is alike to itself.
* `InStep`: what two executions that march in step have in common.
* `executions_march_in_step`: queues under either policy, and containers.
-/

namespace Workflow

variable {σ : Domain} {K : String → Prop} {P : Task σ → Prop} {reach : Reach}

namespace Context

def AgreeOn (K : String → Prop) (c c' : Context) : Prop := ∀ key, K key → c.get? key = c'.get? key

/-- The same stands under all keys but those in `K`. -/
def SameBut (K : String → Prop) (c c' : Context) : Prop :=
  ∀ key, ¬ K key → c.get? key = c'.get? key

theorem AgreeOn.symm {c c' : Context} (h : c.AgreeOn K c') : c'.AgreeOn K c :=
  fun key hkey => (h key hkey).symm

/-- A value that is written on both sides under a key in `K` keeps the sides alike. -/
theorem AgreeOn.insert {α : Type} [ToValue α] {c c' : Context} (h : c.AgreeOn K c') (key : String)
    (value : α) : (c.insert key value).AgreeOn K (c'.insert key value) := by
  intro k hk
  simp only [get?, Context.insert, Table.get?_insert]
  by_cases hkey : k = key
  · rw [if_pos hkey, if_pos hkey]
  · rw [if_neg hkey, if_neg hkey]
    exact h k hk

theorem SameBut.insert {α : Type} [ToValue α] {c c' : Context} (h : c.SameBut K c') {key : String}
    (hkey : K key) (value : α) : c.SameBut K (c'.insert key value) := by
  intro k hk
  have hne : k ≠ key := by
    rintro rfl
    exact hk hkey
  simp only [get?, Context.insert, Table.get?_insert, if_neg hne]
  exact h k hk

end Context

/-- The contexts agree on `K`, and each has under the other keys what one of the contexts `before`
has. The states are the same, and only the tasks of `P` are alike, each to itself. So tasks that
correspond depend on the keys in `K` and on the state alone, and write under these keys alone. -/
def footprint (K : String → Prop) (P : Task σ → Prop) (reach : Reach) : Likeness σ where
  toReach := reach
  Way := Context × Context
  context before c c' := c.AgreeOn K c' ∧ before.1.SameBut K c ∧ before.2.SameBut K c'
  registered c c' := ∀ key, c.get? key = c'.get? key
  state := Eq
  id := Eq
  task t t' := t = t' ∧ P t
  enters _ := True
  shares _ := True
  aside _ _ := True
  registered_refl _ _ := rfl
  enter {c c'} h := by
    refine ⟨(c, c'), ⟨fun key _ => h key, fun _ _ => rfl, fun _ _ => rfl⟩, ?_⟩
    rintro d d' ⟨hagree, hframe, hframe'⟩ key
    by_cases hkey : K key
    · exact hagree key hkey
    · rw [← hframe key hkey, ← hframe' key hkey, h key]

theorem Store.Offers.like {s : Store σ} (h : s.Offers P reach) :
    s.Like (footprint K P reach) s where
  containers := rfl
  contexts := rfl
  registries := rfl
  container hid :=
    Container.like_self (fun _ => rfl) fun handle hmem => ⟨rfl, h.handles hid handle hmem⟩
  container_eq _ := rfl
  shared _ := ⟨fun _ => rfl, rfl⟩
  aside _ := trivial
  shares_new _ := trivial
  shares_entered _ _ := trivial
  object := h.object_like (L := footprint K P reach) fun ht => ⟨rfl, ht⟩
  names := h.names

/-- After executions from `m` and from `m'`: the same has been recorded, the tasks keep the same
state and the same queues wait. The contexts agree on `K`, and under the other keys each is as it
was. -/
structure InStep (K : String → Prop) (m m' m₁ m₁' : Machine σ) : Prop where
  log : m₁.log = m₁'.log
  state : m₁.state = m₁'.state
  container : ∀ id, m₁.store.container id = m₁'.store.container id
  agree : m₁.context.AgreeOn K m₁'.context
  frame : m.context.SameBut K m₁.context
  frame' : m'.context.SameBut K m₁'.context

theorem InStep.of_like {m m' m₁ m₁' : Machine σ}
    (h : m₁.Like (footprint K P reach) (m.context, m'.context) m₁') :
    InStep K m m' m₁ m₁' := by
  obtain ⟨hagree, hframe, hframe'⟩ := h.scope.context
  refine ⟨h.log.eq fun hid => hid, h.scope.state, fun id => ?_, hagree, hframe, hframe'⟩
  by_cases hid : reach.uses id
  · exact (h.store.container hid).eq (fun hid => hid) fun ht => ht.1
  · exact h.store.container_eq hid

theorem executions_march_in_step (hP : (footprint K P reach).Corresponds) {m m' : Machine σ}
    (hcontext : m.context.AgreeOn K m'.context) (hstate : m.state = m'.state)
    (hlog : m.log = m'.log) (hstore : m.store = m'.store) (hoffers : m.store.Offers P reach) :
    (∀ (queue : Queue (Task σ)) (policy : Policy), (∀ handle ∈ queue.handles, P handle.task) →
      ((∃ d m₁, Ends (fun fuel => queue.execute fuel policy) m d m₁) ↔
        ∃ d m₁, Ends (fun fuel => queue.execute fuel policy) m' d m₁) ∧
      ∀ {d d' m₁ m₁'}, Ends (fun fuel => queue.execute fuel policy) m d m₁ →
        Ends (fun fuel => queue.execute fuel policy) m' d' m₁' →
        d = d' ∧ InStep K m m' m₁ m₁') ∧
    ∀ id, reach.uses id →
      ((∃ r m₁, Ends (fun fuel => id.execute fuel) m r m₁) ↔
        ∃ r m₁, Ends (fun fuel => id.execute fuel) m' r m₁) ∧
      ∀ {r r' m₁ m₁'}, Ends (fun fuel => id.execute fuel) m r m₁ →
        Ends (fun fuel => id.execute fuel) m' r' m₁' →
        r = r' ∧ InStep K m m' m₁ m₁' := by
  have hlike {m m' : Machine σ} (hcontext : m.context.AgreeOn K m'.context)
      (hstate : m.state = m'.state) (hlog : m.log = m'.log) (hstore : m.store = m'.store)
      (hoffers : m.store.Offers P reach) :
      m.Like (footprint K P reach) (m.context, m'.context) m' :=
    ⟨⟨⟨hcontext, fun _ _ => rfl, fun _ _ => rfl⟩, hstate⟩, hstore ▸ hoffers.like,
      hlog ▸ Log.Like.refl _⟩
  have hm := hlike hcontext hstate hlog hstore hoffers
  have hm' := hlike hcontext.symm hstate.symm hlog.symm hstore.symm (hstore ▸ hoffers)
  constructor
  · intro queue policy hqueue
    have hlike : queue.Like (footprint K P reach) queue :=
      Queue.like_self (fun _ => rfl) fun handle hmem => ⟨rfl, hqueue handle hmem⟩
    have hfollows := Queue.execute_follows hP hlike policy
    refine ⟨Ends.exists_iff (hfollows _) hm (hfollows _) hm', fun hends hends' => ?_⟩
    obtain ⟨hd, hm₁⟩ := hends.like (hfollows _) (drain_rising _ _ _) hm hends'
    exact ⟨hd.eq (fun hid => hid) fun ht => ht.1, .of_like hm₁⟩
  · intro id hid
    have hfollows := ContainerId.execute_follows hP hid
    refine ⟨Ends.exists_iff (hfollows _) hm (hfollows _) hm', fun hends hends' => ?_⟩
    obtain ⟨hr, hm₁⟩ := hends.like (hfollows _) id.execute_rising hm hends'
    exact ⟨hr, .of_like hm₁⟩

/-! A queue that goes by what stands under one key, and stops half-way. -/

def stamp : Task Unit := .leaf "stamp" <| .read fun scope =>
  .write { scope with context := scope.context.insert "stamped" true } (.done (.ok ()))

def refusal : Task Unit := .leaf "refusal" (.done (.error (.plain "stamped before")))

def stampOnce : Task Unit :=
  .conditional (fun scope => .of scope (scope.context.get? "stamped").isSome)
    (.template ⟨[⟨⟨0⟩, refusal⟩]⟩) (.template ⟨[⟨⟨1⟩, stamp⟩]⟩)

def Stamps (t : Task Unit) : Prop := t = stamp ∨ t = refusal ∨ t = stampOnce

def stampFootprint : Likeness Unit := footprint (· = "stamped") Stamps .nowhere

theorem stamps_correspond : stampFootprint.Corresponds where
  name := by
    rintro t _ ⟨rfl, -⟩
    rfl
  like := by
    have hfactory {i : TaskId} {t : Task Unit} (ht : Stamps t) :
        Factory.Like stampFootprint (.template ⟨[⟨i, t⟩]⟩) (.template ⟨[⟨i, t⟩]⟩) :=
      fun _ _ hs => ⟨.cons ⟨rfl, rfl, ht⟩ .nil, hs⟩
    rintro t _ ⟨rfl, rfl | rfl | rfl⟩
    · refine .leaf fun way => ?_
      refine .read fun s s' hs => ?_
      refine .write ⟨?_, hs.state⟩ (.done _)
      obtain ⟨hagree, hframe, hframe'⟩ := hs.context
      exact ⟨hagree.insert _ _, hframe.insert rfl _, hframe'.insert rfl _⟩
    · exact .leaf fun way => .done _
    · refine .conditional (fun way s s' hs => ⟨?_, rfl, hs.state⟩) (hfactory (.inr (.inl rfl)))
        (hfactory (.inl rfl))
      obtain ⟨hagree, -, -⟩ := hs.context
      exact congrArg Option.isSome (hagree "stamped" rfl)

def letters : Queue (Task Unit) := ⟨[⟨⟨2⟩, stampOnce⟩, ⟨⟨2⟩, stampOnce⟩, ⟨⟨1⟩, stamp⟩]⟩

def noisy : Context := Context.empty.insert "noise" true

def office (context : Context) : Machine Unit := ⟨⟨context, ()⟩, Store.empty, #[]⟩

/-- What is left when the second letter has been refused. -/
def refused : Drained Unit :=
  ⟨.error (.taskFailed "refusal" (.plain "stamped before")), ⟨[⟨⟨1⟩, stamp⟩]⟩⟩

def refusedAt (context : Context) : Machine Unit :=
  ⟨⟨context.insert "stamped" true, ()⟩, Store.empty,
    #[.taskStarted none ⟨2⟩ "conditional", .branched false, .taskStarted none ⟨1⟩ "stamp",
      .leafStarted "stamp", .taskStarted none ⟨2⟩ "conditional", .branched true,
      .taskStarted none ⟨0⟩ "refusal", .leafStarted "refusal"]⟩

theorem execute_letters : letters.execute 4 .failFast (office .empty) =
    .finished refused (refusedAt .empty) := by
  rfl

theorem execute_letters_noisy : letters.execute 4 .failFast (office noisy) =
    .finished refused (refusedAt noisy) := by
  rfl

theorem offices_march_in_step :
    let m := office .empty
    let m' := office noisy
    stampFootprint.Corresponds ∧ m.context.AgreeOn (· = "stamped") m'.context ∧
      m.state = m'.state ∧ m.log = m'.log ∧ m.store = m'.store ∧
      m.store.Offers Stamps .nowhere ∧
      (∀ handle ∈ letters.handles, Stamps handle.task) ∧
      Ends (fun fuel => letters.execute fuel .failFast) m refused (refusedAt .empty) ∧
      Ends (fun fuel => letters.execute fuel .failFast) m' refused (refusedAt noisy) ∧
      InStep (· = "stamped") m m' (refusedAt .empty) (refusedAt noisy) := by
  intro m m'
  have hcontext : m.context.AgreeOn (· = "stamped") m'.context := by
    rintro key rfl
    rfl
  have hoffers : m.store.Offers Stamps .nowhere := ⟨nofun, nofun, ⟨nofun, fun _ => trivial⟩⟩
  have hletters : ∀ handle ∈ letters.handles, Stamps handle.task := by
    intro handle hmem
    simp only [letters, List.mem_cons, List.not_mem_nil, or_false] at hmem
    rcases hmem with rfl | rfl | rfl
    · exact .inr (.inr rfl)
    · exact .inr (.inr rfl)
    · exact .inl rfl
  have hends : Ends (fun fuel => letters.execute fuel .failFast) m refused (refusedAt .empty) :=
    ⟨4, execute_letters⟩
  have hends' : Ends (fun fuel => letters.execute fuel .failFast) m' refused (refusedAt noisy) :=
    ⟨4, execute_letters_noisy⟩
  obtain ⟨hqueues, -⟩ :=
    executions_march_in_step stamps_correspond hcontext rfl rfl rfl hoffers
  obtain ⟨-, hboth⟩ := hqueues letters .failFast hletters
  obtain ⟨-, hstep⟩ := hboth hends hends'
  exact ⟨stamps_correspond, hcontext, rfl, rfl, rfl, hoffers, hletters, hends, hends', hstep⟩

end Workflow
