import Workflow.Proofs.Congruence

/-! # Workflow.Proofs.Growth

What no computation undoes. A container that is there stays, with its name, its policy and its
context; only its queues change. The log is only added to.

* `Task.execute_grows`, `executeContainer_grows`: the engine's computations are of that kind.
-/

namespace Workflow

variable {σ : Domain} {α β : Type}

/-- All containers of `s` are in `s'`, and differ there at most in their queues. -/
structure Store.Grows (s s' : Store σ) : Prop where
  has : ∀ {id : ContainerId}, s.Has id → s'.Has id
  container : ∀ {id : ContainerId}, s.Has id →
    s'.container id = { s.container id with queues := (s'.container id).queues }

namespace Store.Grows

theorem refl (s : Store σ) : s.Grows s := ⟨id, fun _ => rfl⟩

theorem trans {s s₁ s₂ : Store σ} (h₁ : s.Grows s₁) (h₂ : s₁.Grows s₂) : s.Grows s₂ := by
  refine ⟨fun h => h₂.has (h₁.has h), fun h => ?_⟩
  rw [h₂.container (h₁.has h), h₁.container h]

theorem modifyContainer (s : Store σ) (id : ContainerId)
    (f : List (Queue (Task σ)) → List (Queue (Task σ))) :
    s.Grows (s.modifyContainer id fun c => { c with queues := f c.queues }) := by
  refine ⟨has_modifyContainer.2, fun {c} h => ?_⟩
  by_cases hc : id = c
  · subst hc
    rw [container_modifyContainer_self h]
  · rw [container_modifyContainer_ne hc]

theorem modifyContext (s : Store σ) (id : ContextId) (f : SharedContext → SharedContext) :
    s.Grows (s.modifyContext id f) :=
  ⟨has_modifyContext.2, fun _ => by rw [container_modifyContext]⟩

theorem register (s : Store σ) (registry : String) (r : Registration) :
    s.Grows (s.register registry r).2 :=
  ⟨fun h => h.register registry r, fun h => by rw [container_register h]⟩

theorem returnQueue (s : Store σ) (id : ContainerId) (queue : Queue (Task σ)) :
    s.Grows (s.returnQueue id queue) := by
  unfold Store.returnQueue
  split
  · exact .refl s
  · exact .modifyContainer s id (queue :: ·)

theorem policy {s s' : Store σ} (h : s.Grows s') {id : ContainerId} (hid : s.Has id) :
    (s'.container id).policy = (s.container id).policy := by
  rw [h.container hid]

theorem name {s s' : Store σ} (h : s.Grows s') {id : ContainerId} (hid : s.Has id) :
    (s'.container id).name = (s.container id).name := by
  rw [h.container hid]

end Store.Grows

/-- From `m` to `m'` the store has grown, and `events` were added to the log. -/
structure Machine.Grows (m m' : Machine σ) (events : List Event) : Prop where
  store : m.store.Grows m'.store
  log : m'.log = m.log ++ events

theorem Log.append_append (log : Log) (l₁ l₂ : List Event) :
    log ++ l₁ ++ l₂ = log ++ (l₁ ++ l₂) := by
  apply Array.ext'
  simp

theorem Log.foldl_push_remark (log : Log) (remarks : List Remark) :
    remarks.foldl (fun log r => log.push (.remark r)) log = log ++ remarks.map Event.remark := by
  apply Array.ext'
  simp

namespace Machine.Grows

theorem refl (m : Machine σ) : m.Grows m [] := ⟨.refl _, by simp⟩

theorem trans {m m₁ m₂ : Machine σ} {l₁ l₂ : List Event} (h₁ : m.Grows m₁ l₁)
    (h₂ : m₁.Grows m₂ l₂) : m.Grows m₂ (l₁ ++ l₂) :=
  ⟨h₁.store.trans h₂.store, by rw [h₂.log, h₁.log, Log.append_append]⟩

theorem logged (m : Machine σ) (e : Event) : m.Grows (m.logged e) [e] :=
  ⟨.refl _, by simp [Machine.logged]⟩

/-- The events are the only ones that can have been added. -/
theorem events_eq {m m' : Machine σ} {l₁ l₂ : List Event} (h₁ : m.Grows m' l₁)
    (h₂ : m'.log = m.log ++ l₂) : l₁ = l₂ := by
  have h := congrArg Array.toList (h₁.log.symm.trans h₂)
  simpa using h

end Machine.Grows

/-- Wherever `x` comes to its end, the machine has grown. -/
def Exec.Grows (x : Exec σ α) : Prop :=
  ∀ (m : Machine σ) (v : α) (m' : Machine σ), x m = .finished v m' → ∃ events, m.Grows m' events

namespace Exec.Grows

theorem bind {x : Exec σ α} {f : α → Exec σ β} (hx : x.Grows) (hf : ∀ a, (f a).Grows) :
    (x >>= f).Grows := by
  intro m v m' h
  obtain ⟨a, m₁, h₁, h₂⟩ := Exec.finished_of_bind h
  obtain ⟨l₁, hg₁⟩ := hx m a m₁ h₁
  obtain ⟨l₂, hg₂⟩ := hf a m₁ v m' h₂
  exact ⟨_, hg₁.trans hg₂⟩

/-- A step that neither writes to the store nor to the log. -/
theorem of_same {x : Exec σ α}
    (h : ∀ m v m', x m = .finished v m' → m'.store = m.store ∧ m'.log = m.log) : x.Grows := by
  intro m v m' hx
  obtain ⟨hstore, hlog⟩ := h m v m' hx
  exact ⟨[], by rw [hstore]; exact .refl _, by rw [hlog]; simp⟩

theorem emit (e : Event) : (Exec.emit (σ := σ) e).Grows := by
  intro m v m' h
  cases h
  exact ⟨_, .logged m e⟩

/-- A step that changes only the store. -/
theorem of_store {x : Exec σ α}
    (h : ∀ m v m', x m = .finished v m' → m.store.Grows m'.store ∧ m'.log = m.log) : x.Grows := by
  intro m v m' hx
  obtain ⟨hstore, hlog⟩ := h m v m' hx
  exact ⟨[], hstore, by rw [hlog]; simp⟩

theorem ask (question : Scope σ → Answer σ α) : (Exec.ask question).Grows := by
  intro m v m' h
  cases h
  exact ⟨(question m.toScope).remarks.map .remark, .refl _, Log.foldl_push_remark _ _⟩

theorem create (registry : String) (r : Registration) :
    (Exec.create (σ := σ) registry r).Grows := by
  intro m v m' h
  rcases create_cases h with ⟨-, rfl⟩ | ⟨-, rfl, rfl⟩
  · exact ⟨_, .logged m _⟩
  · exact ⟨[.registered r.name], .register _ _ _, by simp⟩

theorem takeQueue (id : ContainerId) : (Exec.takeQueue (σ := σ) id).Grows := by
  refine .of_store fun m v m' h => ?_
  rcases takeQueue_cases h with ⟨-, -, rfl⟩ | ⟨queue, rest, -, -, rfl⟩
  · exact ⟨.refl _, rfl⟩
  · exact ⟨.modifyContainer _ id fun _ => rest, rfl⟩

theorem lock (id : ContainerId) : (Exec.lock (σ := σ) id).Grows := by
  refine .of_store fun m v m' h => ?_
  obtain ⟨-, -, rfl⟩ := lock_cases h
  exact ⟨.modifyContext _ _ _, rfl⟩

end Exec.Grows

/-! ## The engine -/

theorem Exec.congruence_grows : Exec.Congruence (σ := σ) (fun x _ => x.Grows) where
  outOfFuel _ _ _ _ h := by cases h
  pure _ := .of_same fun _ _ _ h => by cases h; exact ⟨rfl, rfl⟩
  bind := .bind
  emit e _ := .emit e
  ask := .ask
  scope := .of_same fun _ _ _ h => by cases h; exact ⟨rfl, rfl⟩
  setScope _ := .of_same fun _ _ _ h => by cases h; exact ⟨rfl, rfl⟩
  swapContext _ := .of_same fun _ _ _ h => by cases h; exact ⟨rfl, rfl⟩
  modifyState _ := .of_same fun _ _ _ h => by cases h; exact ⟨rfl, rfl⟩
  find _ _ := .of_same fun _ _ _ h => by cases h; exact ⟨rfl, rfl⟩
  object _ := .of_same fun _ _ _ h => by cases h; exact ⟨rfl, rfl⟩
  create := .create
  inspect _ _ m _ _ h := by cases h; exact ⟨_, .logged m _⟩
  addQueue id queue m _ _ h := by
    cases h
    exact ⟨[.queueAdded id (m.store.container id).name queue.ids],
      .modifyContainer _ id (· ++ [queue]), by simp⟩
  lock := .lock
  unlock id content := .of_store fun _ _ _ h => by cases h; exact ⟨.modifyContext _ _ _, rfl⟩

theorem Exec.congruenceAt_grows (id : ContainerId) :
    Exec.CongruenceAt (σ := σ) (fun x _ => x.Grows) id where
  emit e _ := .emit e
  name := .of_same fun _ _ _ h => by cases h; exact ⟨rfl, rfl⟩
  policy := .of_same fun _ _ _ h => by cases h; exact ⟨rfl, rfl⟩
  takeQueue := .takeQueue id
  returnQueue queue := .of_store fun _ _ _ h => by cases h; exact ⟨.returnQueue _ _ _, rfl⟩

variable {execute : Task σ → Exec σ TaskResult}

theorem drain_grows (hexec : ∀ t, (execute t).Grows) (policy : Policy) (id : ContainerId)
    (handles : List (Handle (Task σ))) : (drain execute policy (some id) handles).Grows :=
  @Exec.Compatible.drain _ _ execute execute Exec.congruence_grows.toCompatible hexec policy
    (some id) (fun _ _ => .emit _) handles

theorem executeContainer_grows (hexec : ∀ t, (execute t).Grows) (fuel : Nat) (id : ContainerId) :
    (executeContainer execute fuel id).Grows :=
  @Exec.Compatible.executeContainer _ _ execute execute Exec.congruence_grows.toCompatible _
    (Exec.congruenceAt_grows id) hexec _ _ (Nat.le_refl fuel)

theorem drainContainer_grows (hexec : ∀ t, (execute t).Grows) (fuel : Nat) (id : ContainerId) :
    (drainContainer execute id fuel).Grows :=
  @Exec.Compatible.drainContainer _ _ execute execute Exec.congruence_grows.toCompatible _
    (Exec.congruenceAt_grows id) hexec _ _ (Nat.le_refl fuel)

theorem Task.execute_grows (fuel : Nat) (t : Task σ) : (t.execute fuel).Grows :=
  Exec.congruence_grows.execute
    (fun id fuel _ _ _ _ hexec => executeContainer_grows hexec fuel id) (Nat.le_refl fuel) t

end Workflow
