import Workflow.Proofs.Fuel
import Workflow.Proofs.Growth

/-! # Workflow.Proofs.Unread

The log is written and never read. On another log a computation goes the same way and adds the same
events, so two computations may be compared with what they log left out, or with a part of it.

* `Exec.Unread`: going the same way on every log.
* `Task.execute_unread`: so does every task.
* `Exec.Resembles`: coming to the same, but for events that are not told of.
-/

namespace Workflow

variable {σ : Domain} {α β : Type}

/-- The machine with another log. -/
def Machine.withLog (m : Machine σ) (log : Log) : Machine σ := { m with log }

theorem Machine.withLog_logged (m : Machine σ) (log : Log) (events : List Event) (e : Event) :
    (m.withLog (log ++ events)).logged e = m.withLog (log ++ (events ++ [e])) := by
  rw [← Log.append_append]
  simp [logged, withLog]

/-- The outcome with another log. -/
def Outcome.withLog (o : Outcome σ α) (log : Log) : Outcome σ α :=
  match o with
  | .finished v m => .finished v (m.withLog log)
  | .blocked c m => .blocked c (m.withLog log)
  | .outOfFuel => .outOfFuel

/-- From `m`, on whatever log, `x` comes to what it comes to and adds the events. -/
def Exec.Adds (x : Exec σ α) (m : Machine σ) (events : List Event) : Prop :=
  ∀ log, x (m.withLog log) = (x m).withLog (log ++ events)

/-- Whatever the log, `x` goes the same way. -/
def Exec.Unread (x : Exec σ α) : Prop := ∀ m, ∃ events, x.Adds m events

namespace Exec

theorem Adds.log_eq {x : Exec σ α} {m m' : Machine σ} {v : α} {events : List Event}
    (h : x.Adds m events) (hx : x m = .finished v m') : m'.log = m.log ++ events := by
  have hm := h m.log
  rw [hx, Outcome.withLog] at hm
  have hself : x m = .finished v (m'.withLog (m.log ++ events)) := hm
  rw [hx] at hself
  exact congrArg Machine.log (Outcome.finished.inj hself).2

namespace Unread

theorem of_silent {x : Exec σ α} (h : ∀ m log, x (m.withLog log) = (x m).withLog log) :
    x.Unread := fun m => ⟨[], fun log => by rw [h, Array.appendList_nil]⟩

theorem emit (e : Event) : (Exec.emit (σ := σ) e).Unread := fun m => ⟨[e], fun log => by
  simp [Exec.emit, Machine.logged, Machine.withLog, Outcome.withLog]⟩

theorem bind {x : Exec σ α} {f : α → Exec σ β} (hx : x.Unread) (hf : ∀ a, (f a).Unread) :
    (x >>= f).Unread := by
  intro m
  obtain ⟨l₁, h₁⟩ := hx m
  cases hm : x m with
  | finished a m₁ =>
    obtain ⟨l₂, h₂⟩ := hf a m₁
    refine ⟨l₁ ++ l₂, fun log => ?_⟩
    have hlog : x (m.withLog log) = .finished a (m₁.withLog (log ++ l₁)) := by
      rw [h₁ log, hm, Outcome.withLog]
    rw [Exec.bind_of_finished hlog, Exec.bind_of_finished hm, h₂, Log.append_append]
  | blocked c m₁ =>
    refine ⟨l₁, fun log => ?_⟩
    have hlog : x (m.withLog log) = .blocked c (m₁.withLog (log ++ l₁)) := by
      rw [h₁ log, hm, Outcome.withLog]
    rw [Exec.bind_of_blocked hlog, Exec.bind_of_blocked hm, Outcome.withLog]
  | outOfFuel =>
    refine ⟨l₁, fun log => ?_⟩
    have hlog : x (m.withLog log) = .outOfFuel := by rw [h₁ log, hm, Outcome.withLog]
    rw [Exec.bind_of_outOfFuel hlog, Exec.bind_of_outOfFuel hm, Outcome.withLog]

theorem ask (question : Scope σ → Answer σ α) : (Exec.ask question).Unread := fun m =>
  ⟨(question m.toScope).remarks.map .remark, fun log => by
    simp only [Exec.ask, Log.foldl_push_remark]
    rfl⟩

theorem create (registry : String) (r : Registration) :
    (Exec.create (σ := σ) registry r).Unread := by
  intro m
  cases hfind : m.store.find? registry r.name with
  | some id =>
    refine ⟨[.reused r.name], fun log => ?_⟩
    have hlog : (m.withLog log).store.find? registry r.name = some id := hfind
    rw [create_of_some hfind, create_of_some hlog]
    simp [Machine.logged, Machine.withLog, Outcome.withLog]
  | none =>
    refine ⟨[.registered r.name], fun log => ?_⟩
    have hlog : (m.withLog log).store.find? registry r.name = none := hfind
    rw [create_of_none hfind, create_of_none hlog]
    simp [Machine.withLog, Outcome.withLog]

theorem takeQueue (id : ContainerId) : (Exec.takeQueue (σ := σ) id).Unread := by
  refine .of_silent fun m log => ?_
  cases hqueues : (m.store.container id).queues with
  | nil =>
    have hlog : ((m.withLog log).store.container id).queues = [] := hqueues
    rw [takeQueue_of_nil hqueues, takeQueue_of_nil hlog, Outcome.withLog]
  | cons queue rest =>
    have hlog : ((m.withLog log).store.container id).queues = queue :: rest := hqueues
    rw [takeQueue_of_cons hqueues, takeQueue_of_cons hlog]
    rfl

theorem lock (id : ContainerId) : (Exec.lock (σ := σ) id).Unread := by
  refine .of_silent fun m log => ?_
  cases hlocked : (m.store.contextOf id).locked with
  | false =>
    have hlog : ((m.withLog log).store.contextOf id).locked = false := hlocked
    rw [lock_of_free hlocked, lock_of_free hlog]
    rfl
  | true => simp [Exec.lock, Store.lock?, hlocked, Machine.withLog, Outcome.withLog]

end Unread

/-! ## The engine -/

theorem congruence_unread : Congruence (σ := σ) (fun x _ => x.Unread) where
  outOfFuel _ := .of_silent fun _ _ => rfl
  pure _ := .of_silent fun _ _ => rfl
  bind := .bind
  emit e _ := .emit e
  ask := .ask
  scope := .of_silent fun _ _ => rfl
  setScope _ := .of_silent fun _ _ => rfl
  swapContext _ := .of_silent fun _ _ => rfl
  modifyState _ := .of_silent fun _ _ => rfl
  find _ _ := .of_silent fun _ _ => rfl
  object _ := .of_silent fun _ _ => rfl
  create := .create
  inspect id query m := ⟨[.inspected id query], fun log => by
    simp [Exec.inspect, Machine.withLog, Outcome.withLog]⟩
  addQueue id queue m := ⟨[.queueAdded id (m.store.container id).name queue.ids], fun log => by
    simp [Exec.addQueue, Machine.withLog, Outcome.withLog]⟩
  lock := .lock
  unlock _ _ := .of_silent fun _ _ => rfl

theorem congruenceAt_unread (id : ContainerId) :
    CongruenceAt (σ := σ) (fun x _ => x.Unread) id where
  emit e _ := .emit e
  name := .of_silent fun _ _ => rfl
  policy := .of_silent fun _ _ => rfl
  takeQueue := .takeQueue id
  returnQueue _ := .of_silent fun _ _ => rfl

end Exec

theorem Task.execute_unread (fuel : Nat) (t : Task σ) : (t.execute fuel).Unread :=
  Exec.congruence_unread.execute (fun id _ _ execute execute' hle hexec =>
    @Exec.Compatible.executeContainer _ _ execute execute' Exec.congruence_unread.toCompatible _
      (Exec.congruenceAt_unread id) hexec _ _ hle) (Nat.le_refl fuel) t

theorem drainWithin_unread (fuel : Nat) (queue : Queue (Task σ)) :
    (drainWithin (Task.execute fuel) queue).Unread :=
  @Exec.Compatible.drainWithin _ _ (Task.execute fuel) (Task.execute fuel)
    Exec.congruence_unread.toCompatible (Task.execute_unread fuel) queue

/-! ## The same, but for events that are not told of -/

/-- The scope and the store are the same, and so are the logged events that are `told`. -/
structure Machine.Resembles (told : Event → Bool) (m m' : Machine σ) : Prop where
  scope : m.toScope = m'.toScope
  store : m.store = m'.store
  log : m.log.toList.filter told = m'.log.toList.filter told

/-- The outcomes are of one kind and have one answer, and the machines resemble each other. -/
inductive Outcome.Resembles (told : Event → Bool) : Outcome σ α → Outcome σ α → Prop where
  | finished {v : α} {m m' : Machine σ} :
      m.Resembles told m' → Resembles told (.finished v m) (.finished v m')
  | blocked {c : ContainerId} {m m' : Machine σ} :
      m.Resembles told m' → Resembles told (.blocked c m) (.blocked c m')
  | outOfFuel : Resembles told .outOfFuel .outOfFuel

/-- From machines that resemble each other, the computations come to outcomes that do. -/
def Exec.Resembles (told : Event → Bool) (x y : Exec σ α) : Prop :=
  ∀ m m' : Machine σ, m.Resembles told m' → (x m).Resembles told (y m')

/-- Whatever one comes to with fuel enough, the other does but for events that are not told of. -/
def ComeAlike (told : Event → Bool) (x y : Nat → Exec σ α) (m : Machine σ) : Prop :=
  (∀ o, ComesTo x m o → ∃ o', ComesTo y m o' ∧ o.Resembles told o') ∧
  ∀ o', ComesTo y m o' → ∃ o, ComesTo x m o ∧ o.Resembles told o'

section Resembles

variable {told : Event → Bool} {m m' m'' : Machine σ}

namespace Machine.Resembles

theorem refl (m : Machine σ) : m.Resembles told m := ⟨rfl, rfl, rfl⟩

theorem symm (h : m.Resembles told m') : m'.Resembles told m :=
  ⟨h.scope.symm, h.store.symm, h.log.symm⟩

theorem trans (h : m.Resembles told m') (h' : m'.Resembles told m'') : m.Resembles told m'' :=
  ⟨h.scope.trans h'.scope, h.store.trans h'.store, h.log.trans h'.log⟩

theorem context (h : m.Resembles told m') : m.context = m'.context :=
  congrArg Scope.context h.scope

theorem logged {e : Event} (he : told e = false) (m : Machine σ) :
    (m.logged e).Resembles told m := ⟨rfl, rfl, by simp [Machine.logged, he]⟩

/-- The one machine is the other with the one's log. -/
theorem withLog_eq (h : m.Resembles told m') : m.withLog m'.log = m' := by
  obtain ⟨⟨context, state⟩, store, log⟩ := m
  obtain ⟨⟨context', state'⟩, store', log'⟩ := m'
  cases h.scope
  cases h.store
  rfl

theorem withLog_append (h : m.Resembles told m') (events : List Event) (m₁ : Machine σ) :
    (m₁.withLog (m.log ++ events)).Resembles told (m₁.withLog (m'.log ++ events)) :=
  ⟨rfl, rfl, by simp [Machine.withLog, h.log]⟩

end Machine.Resembles

theorem Outcome.Resembles.symm {o o' : Outcome σ α} (h : o.Resembles told o') :
    o'.Resembles told o := by
  cases h with
  | finished hm => exact .finished hm.symm
  | blocked hm => exact .blocked hm.symm
  | outOfFuel => exact .outOfFuel

theorem Outcome.Resembles.ne_outOfFuel {o o' : Outcome σ α} (h : o.Resembles told o')
    (ho : o ≠ .outOfFuel) : o' ≠ .outOfFuel := by
  rintro rfl
  cases h
  exact ho rfl

namespace Exec

theorem Unread.resembles {x : Exec σ α} (hx : x.Unread) : x.Resembles told x := by
  intro m m' hm
  obtain ⟨events, hadds⟩ := hx m
  have hself : m.Resembles told m := .refl m
  have hx := hadds m.log
  have hx' := hadds m'.log
  rw [hself.withLog_eq] at hx
  rw [hm.withLog_eq] at hx'
  rw [hx', hx]
  cases x m with
  | finished v m₁ => exact .finished (hm.withLog_append events m₁)
  | blocked c m₁ => exact .blocked (hm.withLog_append events m₁)
  | outOfFuel => exact .outOfFuel

namespace Resembles

variable {x y : Exec σ α}

theorem bind {f g : α → Exec σ β} (hxy : x.Resembles told y)
    (hfg : ∀ a, (f a).Resembles told (g a)) :
    (x >>= f).Resembles told (y >>= g) := by
  intro m m' hm
  have h := hxy m m' hm
  simp only [Bind.bind, Exec.bind]
  cases hx : x m <;> cases hy : y m' <;> rw [hx, hy] at h <;> cases h
  case finished hm₁ => exact hfg _ _ _ hm₁
  case blocked hm₁ => exact .blocked hm₁
  case outOfFuel => exact .outOfFuel

theorem emit_left {e : Event} (he : told e = false) {f : Unit → Exec σ α}
    (h : (f ()).Resembles told y) : (Exec.emit e >>= f).Resembles told y :=
  fun m _ hm => h _ _ ((Machine.Resembles.logged he m).trans hm)

theorem emit_right {e : Event} (he : told e = false) {f : Unit → Exec σ α}
    (h : x.Resembles told (f ())) : x.Resembles told (Exec.emit e >>= f) :=
  fun _ m' hm => h _ _ (hm.trans (Machine.Resembles.logged he m').symm)

end Resembles

end Exec

/-- It is enough that what the two come to is what two others come to, which resemble each other
with any fuel. -/
theorem comeAlike_of_resembles {x y x' y' : Nat → Exec σ α}
    (hx : ∀ o, ComesTo x m o ↔ ComesTo x' m o) (hy : ∀ o, ComesTo y m o ↔ ComesTo y' m o)
    (h : ∀ fuel, (x' fuel m).Resembles told (y' fuel m)) : ComeAlike told x y m := by
  constructor
  · intro o ho
    obtain ⟨hne, fuel, rfl⟩ := (hx o).1 ho
    exact ⟨y' fuel m, (hy _).2 ⟨(h fuel).ne_outOfFuel hne, fuel, rfl⟩, h fuel⟩
  · intro o ho
    obtain ⟨hne, fuel, rfl⟩ := (hy o).1 ho
    exact ⟨x' fuel m, (hx _).2 ⟨(h fuel).symm.ne_outOfFuel hne, fuel, rfl⟩, h fuel⟩

theorem ComeAlike.ends_iff {x y : Nat → Exec σ α} (h : ComeAlike told x y m) (v : α) :
    (∃ m', Ends x m v m') ↔ ∃ m', Ends y m v m' := by
  obtain ⟨hforth, hback⟩ := h
  constructor
  · rintro ⟨m', hends⟩
    obtain ⟨o', ⟨-, hends'⟩, hlike⟩ := hforth (.finished v m') ⟨nofun, hends⟩
    cases hlike
    exact ⟨_, hends'⟩
  · rintro ⟨m', hends⟩
    obtain ⟨o, ⟨-, hends'⟩, hlike⟩ := hback (.finished v m') ⟨nofun, hends⟩
    cases hlike
    exact ⟨_, hends'⟩

end Resembles

end Workflow
