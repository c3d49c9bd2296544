import Workflow.Proofs.Growth
import Workflow.Proofs.Moments

/-! # Workflow.Proofs.Registry

The registries over all that is done with them. `Leads m m'` says that `m'` is a state that can
follow `m`: whatever a host asks for, at every moment at which it is being carried out.

* `Store.Consistent`: each registry lists the same names twice, for containers and for contexts, and
  what it has under one name belongs together; and every container has a context of its own.
* `Store.Retains`: a container once registered stays, and stays under its name.
* `registry_of_leads`: what follows for the registries of every state that follows the empty one.
-/

namespace Workflow

variable {σ : Domain}

/-! ## A registration -/

namespace Store

variable {s : Store σ} {registry : String} {r : Registration} {id : ContainerId}

theorem has_register_iff : (s.register registry r).2.Has id ↔
    s.Has id ∨ id = (s.register registry r).1 := by
  obtain ⟨index⟩ := id
  simp only [Has, register, List.length_append, List.length_singleton, ContainerId.mk.injEq]
  omega

theorem container_register_new : (s.register registry r).2.container (s.register registry r).1 =
    ⟨r.name, r.policy, [], ⟨s.contexts.length⟩⟩ := by
  simp [container, register]

theorem registry_register (name : String) : (s.register registry r).2.registry name =
    if name = registry then
      ⟨(s.registry registry).containers.insert r.name (s.register registry r).1,
        (s.registry registry).contexts.insert r.name ⟨s.contexts.length⟩⟩
    else s.registry name := by
  by_cases h : name = registry <;> simp [Store.registry, register, Table.get?_insert, h]

theorem find?_register (registry' name : String) :
    (s.register registry r).2.find? registry' name =
      if registry' = registry ∧ name = r.name then some (s.register registry r).1
      else s.find? registry' name := by
  by_cases h : registry' = registry
  · subst h
    simp [find?, registry_register, Registry.find?, Table.get?_insert]
  · simp [find?, registry_register, h]

end Store

/-! ## What stays -/

/-- The containers of `s` are in `s'`, and the registries of `s'` know those that the registries of
`s` know, by the same names. -/
structure Store.Retains (s s' : Store σ) : Prop extends s.Grows s' where
  find : ∀ {registry name id}, s.find? registry name = some id → s'.find? registry name = some id

theorem Store.retains_progress : Store.Progress (Store.Retains (σ := σ)) where
  refl s := ⟨.refl s, id⟩
  trans h₁ h₂ := ⟨h₁.toGrows.trans h₂.toGrows, fun h => h₂.find (h₁.find h)⟩
  register s registry r hfind := by
    refine ⟨.register s registry r, fun {registry' name id} h => ?_⟩
    rw [find?_register, if_neg, h]
    rintro ⟨rfl, rfl⟩
    rw [hfind] at h
    cases h
  queues s id f := ⟨.modifyContainer s id f, fun h => h⟩

theorem Store.Retains.modifyContext (s : Store σ) (id : ContextId)
    (f : SharedContext → SharedContext) : s.Retains (s.modifyContext id f) :=
  ⟨.modifyContext s id f, fun h => h⟩

/-! ## What belongs together -/

/-- The tables have the same names, and the container under a name has that name and the context
under it. -/
structure Registry.Consistent (s : Store σ) (r : Registry) : Prop where
  keys_eq : r.containers.keys = r.contexts.keys
  found : ∀ {name id}, r.find? name = some id →
    s.Has id ∧ (s.container id).name = name ∧ r.context? name = some (s.container id).context

/-- Every container has a context of its own. -/
structure Store.Separate (s : Store σ) : Prop where
  has_context : ∀ {id}, s.Has id → (s.container id).context.index < s.contexts.length
  context_injective : ∀ {a b}, s.Has a → s.Has b →
    (s.container a).context = (s.container b).context → a = b

structure Store.Consistent (s : Store σ) : Prop where
  registries : ∀ name, (s.registry name).Consistent s
  separate : s.Separate

theorem Registry.Consistent.empty (s : Store σ) : Registry.empty.Consistent s :=
  ⟨rfl, nofun⟩

theorem Store.Consistent.empty : (Store.empty : Store σ).Consistent :=
  ⟨fun _ => .empty _, nofun, nofun⟩

/-- What is under a name belongs together still where the containers have only grown. -/
theorem Registry.Consistent.grows {s s' : Store σ} {r : Registry} (h : r.Consistent s)
    (hgrows : s.Grows s') : r.Consistent s' := by
  refine ⟨h.keys_eq, fun hfind => ?_⟩
  obtain ⟨hid, hname, hcontext⟩ := h.found hfind
  refine ⟨hgrows.has hid, ?_, ?_⟩
  · rw [hgrows.container hid]
    exact hname
  · rw [hgrows.container hid]
    exact hcontext

theorem Registry.Consistent.register {s : Store σ} {r : Registration} {registry : String}
    (h : (s.registry registry).Consistent s) :
    ((s.register registry r).2.registry registry).Consistent (s.register registry r).2 := by
  have hgrows : s.Grows (s.register registry r).2 := .register s registry r
  rw [Store.registry_register, if_pos rfl]
  refine ⟨Table.keys_insert h.keys_eq _ _ _, fun {name id} hfind => ?_⟩
  simp only [find?, context?, Table.get?_insert] at hfind ⊢
  by_cases hname : name = r.name
  · rw [if_pos hname] at hfind ⊢
    cases hfind
    refine ⟨Store.has_register_iff.2 (.inr rfl), ?_, ?_⟩
    · rw [Store.container_register_new, hname]
    · rw [Store.container_register_new]
  · rw [if_neg hname] at hfind ⊢
    exact (h.grows hgrows).found hfind

theorem Store.Separate.register {s : Store σ} (h : s.Separate) (registry : String)
    (r : Registration) : (s.register registry r).2.Separate := by
  have hlength : (s.register registry r).2.contexts.length = s.contexts.length + 1 := by
    simp [Store.register]
  -- The new context stands behind those that are there.
  have hold {id : ContainerId} (hid : s.Has id) :
      ((s.register registry r).2.container id).context.index < s.contexts.length := by
    rw [container_register hid]
    exact h.has_context hid
  refine ⟨fun {id} hid => ?_, fun {a b} ha hb heq => ?_⟩
  · rcases has_register_iff.1 hid with hid | rfl
    · have := hold hid
      omega
    · rw [container_register_new, hlength]
      exact Nat.lt_succ_self _
  · rcases has_register_iff.1 ha with ha | rfl <;> rcases has_register_iff.1 hb with hb | rfl
    · rw [container_register ha, container_register hb] at heq
      exact h.context_injective ha hb heq
    · have hlt := hold ha
      rw [heq, container_register_new] at hlt
      exact absurd hlt (Nat.lt_irrefl _)
    · have hlt := hold hb
      rw [← heq, container_register_new] at hlt
      exact absurd hlt (Nat.lt_irrefl _)
    · rfl

/-- The containers are the same, but for their queues, and so are the places of the contexts. -/
theorem Store.Separate.of_eq {s s' : Store σ} (h : s.Separate)
    (hhas : ∀ id, s'.Has id ↔ s.Has id)
    (hcontext : ∀ id, s.Has id → (s'.container id).context = (s.container id).context)
    (hlength : s'.contexts.length = s.contexts.length) : s'.Separate := by
  refine ⟨fun {id} hid => ?_, fun {a b} ha hb heq => ?_⟩
  · rw [hcontext id ((hhas id).1 hid), hlength]
    exact h.has_context ((hhas id).1 hid)
  · rw [hcontext a ((hhas a).1 ha), hcontext b ((hhas b).1 hb)] at heq
    exact h.context_injective ((hhas a).1 ha) ((hhas b).1 hb) heq

theorem Store.Separate.modifyContext {s : Store σ} (h : s.Separate) (id : ContextId)
    (f : SharedContext → SharedContext) : (s.modifyContext id f).Separate :=
  h.of_eq (fun _ => has_modifyContext) (fun c _ => by rw [container_modifyContext])
    (by simp [Store.modifyContext])

theorem Store.Separate.queues {s : Store σ} (h : s.Separate) (id : ContainerId)
    (f : List (Queue (Task σ)) → List (Queue (Task σ))) :
    (s.modifyContainer id fun c => { c with queues := f c.queues }).Separate :=
  h.of_eq (fun _ => has_modifyContainer)
    (fun c hc => by rw [(Store.Grows.modifyContainer s id f).container hc]) rfl

/-- From `s` to `s'` the containers of the registries go on belonging together. -/
def Store.Keeps (s s' : Store σ) : Prop := s.Consistent → s'.Consistent

theorem Store.Keeps.modifyContext (s : Store σ) (id : ContextId)
    (f : SharedContext → SharedContext) : s.Keeps (s.modifyContext id f) := fun h =>
  ⟨fun name => (h.registries name).grows (.modifyContext s id f), h.separate.modifyContext id f⟩

theorem Store.keeps_progress : Store.Progress (Store.Keeps (σ := σ)) where
  refl _ h := h
  trans h₁ h₂ h := h₂ (h₁ h)
  register s registry r _ h := by
    refine ⟨fun name => ?_, h.separate.register registry r⟩
    by_cases hname : name = registry
    · subst hname
      exact (h.registries name).register
    · rw [registry_register, if_neg hname]
      exact (h.registries name).grows (.register s registry r)
  queues s id f h :=
    ⟨fun name => (h.registries name).grows (.modifyContainer s id f), h.separate.queues id f⟩

/-! ## What can follow a state -/

/-- What a host can make of a state. It carries out requests as a leaf does, it gives them whatever
scope to work on, it uses the contexts of containers, and it keeps objects for tasks to refer to.
Each moment of what it has carried out is a state of its own. -/
inductive Leads : Machine σ → Machine σ → Prop where
  | refl {m : Machine σ} : Leads m m
  | requests {m m₁ m' : Machine σ} {κ ρ : Type} {calls : κ → Call}
      {program : Program σ (Task σ) κ ρ} {running : List ContainerId} {b : Activity σ} :
      Leads m m₁ → Activity.Visits (.program calls program) m₁ running b m' → Leads m m'
  | scope {m m₁ : Machine σ} (scope : Scope σ) : Leads m m₁ → Leads m { m₁ with toScope := scope }
  | context {m m₁ : Machine σ} (id : ContextId) (f : SharedContext → SharedContext) :
      Leads m m₁ → Leads m { m₁ with store := m₁.store.modifyContext id f }
  | object {m m₁ : Machine σ} (object : Handle (Task σ)) :
      Leads m m₁ → Leads m { m₁ with store := m₁.store.keep object }

theorem Leads.moves {P : Store σ → Store σ → Prop} (hP : Store.Progress P)
    (hlocks : ∀ (s : Store σ) (id : ContextId) (f : SharedContext → SharedContext),
      P s (s.modifyContext id f))
    (hkeep : ∀ (s : Store σ) (object : Handle (Task σ)), P s (s.keep object)) {m m' : Machine σ}
    (h : Leads m m') : P m.store m'.store := by
  induction h with
  | refl => exact hP.refl _
  | requests _ hvisits ih => exact hP.trans ih (hvisits.moves hP hlocks)
  | scope _ _ ih => exact ih
  | context id f _ ih => exact hP.trans ih (hlocks _ id f)
  | object object _ ih => exact hP.trans ih (hkeep _ object)

theorem Leads.retains {m m' : Machine σ} (h : Leads m m') : m.store.Retains m'.store := by
  refine h.moves Store.retains_progress .modifyContext fun s object => ?_
  unfold Store.keep
  split
  · exact Store.retains_progress.refl s
  · exact ⟨⟨fun h => h, fun _ => rfl⟩, fun h => h⟩

theorem Leads.keeps {m m' : Machine σ} (h : Leads m m') : m.store.Keeps m'.store := by
  refine h.moves Store.keeps_progress .modifyContext fun s object hs => ?_
  unfold Store.keep
  split
  · exact hs
  · exact ⟨fun name => (hs.registries name).grows ⟨fun h => h, fun _ => rfl⟩,
      hs.separate.of_eq (fun _ => Iff.rfl) (fun _ _ => rfl) rfl⟩

/-! ## The registries -/

/-- What can be relied upon in a registry. -/
structure Registry.WellFormed (s : Store σ) (r : Registry) : Prop where
  keys_eq : r.containers.keys = r.contexts.keys
  has : ∀ {name id}, r.find? name = some id → s.Has id
  name_eq : ∀ {name id}, r.find? name = some id → (s.container id).name = name
  context_eq : ∀ {name id}, r.find? name = some id → r.context? name = some (s.container id).context
  containers_ne : ∀ {name₁ name₂ id₁ id₂}, name₁ ≠ name₂ →
    r.find? name₁ = some id₁ → r.find? name₂ = some id₂ → id₁ ≠ id₂
  contexts_ne : ∀ {name₁ name₂ c₁ c₂}, name₁ ≠ name₂ →
    r.context? name₁ = some c₁ → r.context? name₂ = some c₂ → c₁ ≠ c₂
  names_increasing : r.names.Pairwise (· < ·)
  mem_names_iff_contains : ∀ name, name ∈ r.names ↔ r.contains name = true
  mem_names_iff_find : ∀ name, name ∈ r.names ↔ (r.find? name).isSome = true
  mem_names_iff_context : ∀ name, name ∈ r.names ↔ (r.context? name).isSome = true
  size_eq : r.size = r.names.length

theorem Store.Consistent.wellFormed {s : Store σ} (h : s.Consistent) (registry : String) :
    (s.registry registry).WellFormed s := by
  have hr := h.registries registry
  have hcontext (name : String) : name ∈ (s.registry registry).names ↔
      ((s.registry registry).context? name).isSome = true := by
    rw [Registry.names, hr.keys_eq]
    exact Table.mem_keys_iff
  -- The names of the containers tell them apart, and their contexts.
  have hcontainers {name₁ name₂ : String} {id₁ id₂ : ContainerId} (hne : name₁ ≠ name₂)
      (h₁ : (s.registry registry).find? name₁ = some id₁)
      (h₂ : (s.registry registry).find? name₂ = some id₂) : id₁ ≠ id₂ := by
    rintro rfl
    exact hne ((hr.found h₁).2.1.symm.trans (hr.found h₂).2.1)
  refine
    { keys_eq := hr.keys_eq
      has := fun hfind => (hr.found hfind).1
      name_eq := fun hfind => (hr.found hfind).2.1
      context_eq := fun hfind => (hr.found hfind).2.2
      containers_ne := hcontainers
      contexts_ne := fun {name₁ name₂ c₁ c₂} hne h₁ h₂ => ?_
      names_increasing := (s.registry registry).containers.keys_increase
      mem_names_iff_contains := fun _ => Table.mem_keys_iff
      mem_names_iff_find := fun _ => Table.mem_keys_iff
      mem_names_iff_context := hcontext
      size_eq := by simp [Registry.size, Registry.names, Table.size, Table.keys_eq] }
  have hfound {name : String} {c : ContextId}
      (h : (s.registry registry).context? name = some c) :
      ∃ id, (s.registry registry).find? name = some id ∧ s.Has id ∧
        (s.container id).context = c := by
    have hmem := (hcontext name).2 (by simp [h])
    obtain ⟨id, hid⟩ := Option.isSome_iff_exists.1 (Table.mem_keys_iff.1 hmem)
    obtain ⟨hhas, -, hc⟩ := hr.found hid
    rw [h] at hc
    exact ⟨id, hid, hhas, (Option.some.inj hc).symm⟩
  obtain ⟨id₁, hid₁, hhas₁, rfl⟩ := hfound h₁
  obtain ⟨id₂, hid₂, hhas₂, rfl⟩ := hfound h₂
  intro heq
  exact hcontainers hne hid₁ hid₂ (h.separate.context_injective hhas₁ hhas₂ heq)

/-- In every state that follows one without containers, each registry can be relied upon. What is
registered under a name stays there for ever, with its name, its policy and its context, and whoever
asks for a container of that name is given it, and nothing else happens. -/
theorem registry_of_leads {scope : Scope σ} {log : Log} {m : Machine σ}
    (h : Leads ⟨scope, Store.empty, log⟩ m) (registry : String) :
    (m.store.registry registry).WellFormed m.store ∧
    ∀ name id, m.store.find? registry name = some id → ∀ m', Leads m m' →
      m'.store.find? registry name = some id ∧
      (m'.store.registry registry).context? name = (m.store.registry registry).context? name ∧
      m'.store.container id =
        { m.store.container id with queues := (m'.store.container id).queues } ∧
      ∀ context policy, Exec.create registry ⟨name, context, policy⟩ m' =
        .finished id (m'.logged (.reused name)) := by
  have hm : m.store.Consistent := h.keeps .empty
  refine ⟨hm.wellFormed registry, fun name id hfind m' hm' => ?_⟩
  have hretains := hm'.retains
  obtain ⟨hid, -, hcontext⟩ := (hm.registries registry).found hfind
  have hcontext' := (((hm'.keeps hm).registries registry).found (hretains.find hfind)).2.2
  have hcontainer := hretains.container hid
  refine ⟨hretains.find hfind, ?_, hcontainer, fun context policy => ?_⟩
  · rw [hcontext', hcontext, hcontainer]
  · exact Exec.create_of_some (hretains.find hfind)

/-- A host that registers two containers, has one run fail, and asks for that container again. -/
def trading : Leaf Unit ContainerId :=
  .create "market" ⟨"mill", none, .failFast⟩ fun mill =>
    .create "market" ⟨"bakery", none, .keepGoing⟩ fun _ =>
      .addQueue mill ⟨[⟨⟨0⟩, breaking⟩, ⟨⟨1⟩, breaking⟩]⟩
        (.call (.run mill) fun _ =>
          .create "market" ⟨"mill", none, .keepGoing⟩ fun again => .done again)

/-- After the run a task is left, and the container has kept its policy. -/
def traded : Machine Unit :=
  let tables : Registry :=
    ⟨.ofList [("bakery", ⟨1⟩), ("mill", ⟨0⟩)], .ofList [("bakery", ⟨1⟩), ("mill", ⟨0⟩)]⟩
  ⟨⟨.empty, ()⟩,
    { Store.empty with
      containers :=
        [⟨"mill", .failFast, [⟨[⟨⟨1⟩, breaking⟩]⟩], ⟨0⟩⟩, ⟨"bakery", .keepGoing, [], ⟨1⟩⟩]
      contexts := [⟨.empty, false⟩, ⟨.empty, false⟩]
      registries := .ofList [("market", tables)] },
    ⟨[.registered "mill", .registered "bakery", .queueAdded ⟨0⟩ "mill" [⟨0⟩, ⟨1⟩],
      .runStarted ⟨0⟩ "mill", .taskStarted (some ⟨0⟩) ⟨0⟩ "breaking", .leafStarted "breaking",
      .reused "mill"]⟩⟩

/-- When these containers have been registered, and nothing more has been done. -/
def opening (containers : List (Container Unit)) (tables : Registry) (log : List Event) :
    Machine Unit :=
  ⟨⟨.empty, ()⟩,
    { Store.empty with
      containers
      contexts := containers.map fun _ => ⟨.empty, false⟩
      registries := .ofList [("market", tables)] }, ⟨log⟩⟩

def millOpened : Machine Unit :=
  opening [⟨"mill", .failFast, [], ⟨0⟩⟩] ⟨.ofList [("mill", ⟨0⟩)], .ofList [("mill", ⟨0⟩)]⟩
    [.registered "mill"]

def bakeryOpened : Machine Unit :=
  opening [⟨"mill", .failFast, [], ⟨0⟩⟩, ⟨"bakery", .keepGoing, [], ⟨1⟩⟩]
    ⟨.ofList [("bakery", ⟨1⟩), ("mill", ⟨0⟩)], .ofList [("bakery", ⟨1⟩), ("mill", ⟨0⟩)]⟩
    [.registered "mill", .registered "bakery"]

theorem exec_trading :
    trading.exec (Call.answer (Task.execute 5) 5) ⟨⟨.empty, ()⟩, Store.empty, #[]⟩ =
      .finished ⟨0⟩ traded := by
  have hmill : Exec.create "market" ⟨"mill", none, .failFast⟩ ⟨⟨.empty, ()⟩, Store.empty, #[]⟩ =
      .finished ⟨0⟩ millOpened := rfl
  have hbakery : Exec.create "market" ⟨"bakery", none, .keepGoing⟩ millOpened =
      .finished ⟨1⟩ bakeryOpened := rfl
  refine (Exec.bind_of_finished hmill).trans ((Exec.bind_of_finished hbakery).trans ?_)
  rfl

theorem market_of_leads :
    let m₀ : Machine Unit := ⟨⟨.empty, ()⟩, Store.empty, #[]⟩
    Leads m₀ traded ∧ traded.store.find? "market" "mill" = some ⟨0⟩ ∧
      (traded.store.registry "market").names = ["bakery", "mill"] ∧
      (traded.store.registry "market").WellFormed traded.store ∧
      ∀ context policy, Exec.create "market" ⟨"mill", context, policy⟩ traded =
        .finished ⟨0⟩ (traded.logged (.reused "mill")) := by
  intro m₀
  have hends : Ends (fun fuel => (Activity.program id trading).exec fuel) m₀ ⟨0⟩ traded :=
    ⟨5, exec_trading⟩
  have hleads : Leads m₀ traded := .requests .refl (Activity.visits_done hends)
  have hfind : traded.store.find? "market" "mill" = some ⟨0⟩ := by decide
  obtain ⟨hwell, hstays⟩ := registry_of_leads hleads "market"
  obtain ⟨-, -, -, hcreate⟩ := hstays "mill" ⟨0⟩ hfind traded .refl
  exact ⟨hleads, hfind, by decide, hwell, hcreate⟩

end Workflow
