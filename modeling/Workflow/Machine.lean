import Workflow.Store

/-! # Workflow.Machine

The engine's state and the computations over it. A computation ends in one of three ways: it is
finished, it waits for the lock of a context that an enclosing run holds and so waits for ever, or
the fuel it was given ran out.

The log is part of the state and is only ever added to.
-/

namespace Workflow

/-- The scope of the task at work, the store and the log so far. -/
structure Machine (σ : Domain) extends Scope σ where
  store : Store σ
  log : Log

def Machine.logged {σ : Domain} (m : Machine σ) (event : Event) : Machine σ :=
  { m with log := m.log.push event }

/-- The machine with those queues in the container. -/
def Machine.withQueues {σ : Domain} (m : Machine σ) (id : ContainerId)
    (queues : List (Queue (Task σ))) : Machine σ :=
  { m with store := m.store.modifyContainer id fun c => { c with queues } }

inductive Outcome (σ : Domain) (α : Type) where
  | finished (value : α) (machine : Machine σ)
  | blocked (container : ContainerId) (machine : Machine σ)
  | outOfFuel

def Exec (σ : Domain) (α : Type) := Machine σ → Outcome σ α

/-- What running a container answers. -/
abbrev RunResult := Except ExecutionError Summary

namespace Exec

variable {σ : Domain} {α β : Type}

@[inline] def bind (x : Exec σ α) (f : α → Exec σ β) : Exec σ β := fun m =>
  match x m with
  | .finished value m => f value m
  | .blocked container m => .blocked container m
  | .outOfFuel => .outOfFuel

@[inline] instance : Monad (Exec σ) where
  pure value := .finished value
  bind := bind

theorem bind_of_finished {x : Exec σ α} {f : α → Exec σ β} {m m' : Machine σ} {a : α}
    (h : x m = .finished a m') : (x >>= f) m = f a m' := by
  simp only [Bind.bind, Exec.bind, h]

/-- A sequence comes to its end only through the end of its first part. -/
theorem finished_of_bind {x : Exec σ α} {f : α → Exec σ β} {m m' : Machine σ} {b : β}
    (h : (x >>= f) m = .finished b m') :
    ∃ a m₁, x m = .finished a m₁ ∧ f a m₁ = .finished b m' := by
  simp only [Bind.bind, Exec.bind] at h
  cases hx : x m with
  | finished a m₁ => rw [hx] at h; exact ⟨a, m₁, rfl, h⟩
  | blocked container m₁ => rw [hx] at h; cases h
  | outOfFuel => rw [hx] at h; cases h

/-- A sequence waits where its first part does, or its second part after that. -/
theorem blocked_of_bind {x : Exec σ α} {f : α → Exec σ β} {m m' : Machine σ} {c : ContainerId}
    (h : (x >>= f) m = .blocked c m') :
    x m = .blocked c m' ∨ ∃ a m₁, x m = .finished a m₁ ∧ f a m₁ = .blocked c m' := by
  simp only [Bind.bind, Exec.bind] at h
  cases hx : x m with
  | finished a m₁ => rw [hx] at h; exact .inr ⟨a, m₁, rfl, h⟩
  | blocked container m₁ => rw [hx] at h; cases h; exact .inl rfl
  | outOfFuel => rw [hx] at h; cases h

theorem bind_assoc {γ : Type} (x : Exec σ α) (f : α → Exec σ β) (g : β → Exec σ γ) :
    (x >>= f) >>= g = x >>= fun a => f a >>= g := by
  funext m
  simp only [Bind.bind, Exec.bind]
  cases x m <;> rfl

theorem bind_of_blocked {x : Exec σ α} {m m' : Machine σ} {c : ContainerId}
    (h : x m = .blocked c m') (f : α → Exec σ β) : (x >>= f) m = .blocked c m' := by
  simp only [Bind.bind, Exec.bind, h]

def outOfFuel : Exec σ α := fun _ => .outOfFuel

def emit (event : Event) : Exec σ Unit := fun m => .finished () (m.logged event)

theorem emit_bind (event : Event) (f : Unit → Exec σ α) (m : Machine σ) :
    (emit event >>= f) m = f () (m.logged event) := rfl

/-- Asks about the scope; the remarks of the answer go to the log. -/
def ask (question : Scope σ → Answer σ α) : Exec σ α := fun m =>
  let answer := question m.toScope
  .finished answer.value
    { m with
      state := answer.state
      log := answer.remarks.foldl (fun log r => log.push (.remark r)) m.log }

def scope : Exec σ (Scope σ) := fun m => .finished m.toScope m

def setScope (scope : Scope σ) : Exec σ Unit := fun m => .finished () { m with toScope := scope }

/-- Puts another context in the place of the one at hand, which is the answer. -/
def swapContext (context : Context) : Exec σ Context := fun m =>
  .finished m.context { m with context }

def modifyState (f : σ → α × σ) : Exec σ α := fun m =>
  let (result, state) := f m.state
  .finished result { m with state }

/-- Reads something off the store. -/
def look (f : Store σ → α) : Exec σ α := fun m => .finished (f m.store) m

theorem look_bind (f : Store σ → α) (g : α → Exec σ β) (m : Machine σ) :
    (look f >>= g) m = g (f m.store) m := rfl

def inspect (id : ContainerId) (query : Query) : Exec σ query.Answer := fun m =>
  .finished (query.answer (m.store.view id)) { m with log := m.log.push (.inspected id query) }

/-- The container of that name. It is created on the first request for it, and every later request
is answered with the same one, whatever it asks for. -/
def create (registry : String) (r : Registration) : Exec σ ContainerId := fun m =>
  match m.store.find? registry r.name with
  | some id => .finished id { m with log := m.log.push (.reused r.name) }
  | none =>
    let (id, store) := m.store.register registry r
    .finished id { m with store, log := m.log.push (.registered r.name) }

def addQueue (id : ContainerId) (queue : Queue (Task σ)) : Exec σ Unit := fun m =>
  .finished ()
    { m with
      store := m.store.addQueue id queue
      log := m.log.push (.queueAdded id (m.store.container id).name queue.ids) }

def takeQueue (id : ContainerId) : Exec σ (Option (Queue (Task σ))) := fun m =>
  match m.store.takeQueue? id with
  | some (queue, store) => .finished (some queue) { m with store }
  | none => .finished none m

def returnQueue (id : ContainerId) (queue : Queue (Task σ)) : Exec σ Unit := fun m =>
  .finished () { m with store := m.store.returnQueue id queue }

/-- Waits for the lock of a container's context, and answers with its content. Runs are nested in
one another and never side by side, so a lock that is held now is never given back. -/
def lock (id : ContainerId) : Exec σ Context := fun m =>
  match m.store.lock? id with
  | some (content, store) => .finished content { m with store }
  | none => .blocked id m

def unlock (id : ContainerId) (content : Context) : Exec σ Unit := fun m =>
  .finished () { m with store := m.store.unlock id content }

/-! What the steps that branch come to. -/

section Cases

variable {m m' : Machine σ} {id : ContainerId}

theorem create_of_some {registry : String} {r : Registration}
    (h : m.store.find? registry r.name = some id) :
    create registry r m = .finished id (m.logged (.reused r.name)) := by
  simp only [create, h]
  rfl

theorem create_of_none {registry : String} {r : Registration}
    (h : m.store.find? registry r.name = none) :
    create registry r m = .finished (m.store.register registry r).1
      { m with
        store := (m.store.register registry r).2
        log := m.log.push (.registered r.name) } := by
  simp only [create, h]

theorem create_cases {registry : String} {r : Registration}
    (h : create registry r m = .finished id m') :
    (m.store.find? registry r.name = some id ∧ m' = m.logged (.reused r.name)) ∨
    (m.store.find? registry r.name = none ∧ id = (m.store.register registry r).1 ∧
      m' = { m with
        store := (m.store.register registry r).2, log := m.log.push (.registered r.name) }) := by
  cases hfind : m.store.find? registry r.name with
  | some c =>
    rw [create_of_some hfind] at h
    cases h
    exact .inl ⟨rfl, rfl⟩
  | none =>
    rw [create_of_none hfind] at h
    cases h
    exact .inr ⟨rfl, rfl, rfl⟩

theorem takeQueue_of_nil (h : (m.store.container id).queues = []) :
    takeQueue id m = .finished none m := by
  simp only [takeQueue, Store.takeQueue?, h]

theorem takeQueue_of_cons {queue : Queue (Task σ)} {rest : List (Queue (Task σ))}
    (h : (m.store.container id).queues = queue :: rest) :
    takeQueue id m = .finished (some queue) (m.withQueues id rest) := by
  simp only [takeQueue, Store.takeQueue?, h]
  rfl

theorem takeQueue_cases {queue? : Option (Queue (Task σ))}
    (h : takeQueue id m = .finished queue? m') :
    ((m.store.container id).queues = [] ∧ queue? = none ∧ m' = m) ∨
    ∃ queue rest, (m.store.container id).queues = queue :: rest ∧ queue? = some queue ∧
      m' = m.withQueues id rest := by
  cases hqueues : (m.store.container id).queues with
  | nil =>
    rw [takeQueue_of_nil hqueues] at h
    cases h
    exact .inl ⟨rfl, rfl, rfl⟩
  | cons queue rest =>
    rw [takeQueue_of_cons hqueues] at h
    cases h
    exact .inr ⟨queue, rest, rfl, rfl, rfl⟩

theorem lock_of_free (h : (m.store.contextOf id).locked = false) :
    lock id m = .finished (m.store.contextOf id).content
      { m with
        store := m.store.modifyContext (m.store.container id).context
          fun shared => { shared with locked := true } } := by
  simp only [lock, Store.lock?, h]
  rfl

theorem lock_cases {content : Context} (h : lock id m = .finished content m') :
    (m.store.contextOf id).locked = false ∧ content = (m.store.contextOf id).content ∧
      m' = { m with
        store := m.store.modifyContext (m.store.container id).context
          fun shared => { shared with locked := true } } := by
  cases hlocked : (m.store.contextOf id).locked with
  | true => simp [lock, Store.lock?, hlocked] at h
  | false =>
    rw [lock_of_free hlocked] at h
    cases h
    exact ⟨rfl, rfl, rfl⟩

end Cases

end Exec

/-- A queue to drain. -/
def Factory.build {σ : Domain} : Factory σ (Task σ) → Exec σ (Queue (Task σ))
  | .template queue => pure queue
  | .builder make => Exec.modifyState make

end Workflow
