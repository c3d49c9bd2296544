import Workflow.Proofs.Chaining

/-! # Workflow.Proofs.Bracketing

Aspects around aspects nest like brackets. The hooks before the task run from the outermost layer
inwards, and behind a success those after it run from the innermost layer outwards. A gate that
closes stands in for a success of all that is inside it: the layers around it are left as usual, and
neither the rest of its own layer nor anything deeper is come to.

* `performHook_settled`: hooks come to an end and close no gate.
* `ends_wrap_iff_of_open`, `ends_wrap_iff_of_closed`: one layer.
* `Opened.ends_within_iff`, `Opened.ends_within_iff_of_closed`: layer upon layer.
* `stacks_nest_like_brackets`: every stack around every task.
-/

namespace Workflow

variable {σ : Domain} {α β : Type}

/-- The task at whose aspect a gate was closed. -/
def Event.gate? : Event → Option String
  | .gateClosed task => some task
  | _ => none

def Log.gates (log : Log) : List String := log.toList.filterMap Event.gate?

@[simp] theorem Log.gates_push (log : Log) (e : Event) :
    Log.gates (log.push e) = log.gates ++ e.gate?.toList := by
  unfold gates
  cases h : e.gate? <;> simp [h]

/-! ## Hooks -/

namespace Exec

/-- The computation comes to an end, wherever it starts, and closes no gate. -/
def Settled (x : Exec σ α) : Prop :=
  ∀ m, ∃ a m', x m = .finished a m' ∧ m'.log.gates = m.log.gates

namespace Settled

theorem pure (a : α) : (Pure.pure a : Exec σ α).Settled := fun m => ⟨a, m, rfl, rfl⟩

theorem bind {x : Exec σ α} {f : α → Exec σ β} (hx : x.Settled) (hf : ∀ a, (f a).Settled) :
    (x >>= f).Settled := by
  intro m
  obtain ⟨a, m₁, ha, hm₁⟩ := hx m
  obtain ⟨b, m₂, hb, hm₂⟩ := hf a m₁
  exact ⟨b, m₂, (bind_of_finished ha).trans hb, hm₂.trans hm₁⟩

theorem emit {e : Event} (he : e.gate? = none) : (Exec.emit (σ := σ) e).Settled :=
  fun m => ⟨(), m.logged e, rfl, by simp [Machine.logged, he]⟩

theorem create (registry : String) (r : Registration) :
    (Exec.create (σ := σ) registry r).Settled := by
  intro m
  cases hfind : m.store.find? registry r.name with
  | some id =>
    exact ⟨id, _, create_of_some hfind, by simp [Machine.logged, Event.gate?]⟩
  | none => exact ⟨_, _, create_of_none hfind, by simp [Event.gate?]⟩

end Settled
end Exec

theorem performHook_settled (hook : Hook σ α) : (Task.performHook hook).Settled := by
  unfold Task.performHook
  induction hook with
  | done result => exact .pure result
  | read next ih => exact .bind (fun m => ⟨m.toScope, m, rfl, rfl⟩) ih
  | write scope next ih =>
    exact .bind (fun m => ⟨(), { m with toScope := scope }, rfl, rfl⟩) fun _ => ih
  | remark r next ih => exact .bind (.emit rfl) fun _ => ih
  | find registry name next ih =>
    exact .bind (fun m => ⟨m.store.find? registry name, m, rfl, rfl⟩) ih
  | create registry registration next ih => exact .bind (.create registry registration) ih
  | addQueue container queue next ih =>
    exact .bind (fun m => ⟨(), _, rfl, by simp [Event.gate?]⟩) fun _ => ih
  | inspect container query next ih =>
    exact .bind (fun m => ⟨_, _, rfl, by simp [Event.gate?]⟩) ih
  | call request next ih => exact request.elim

/-! ## One layer -/

/-- The hooks of an aspect. -/
structure Layer (σ : Domain) where
  before : Option (Hook σ Bool)
  after : Option (Hook σ Unit)

namespace Layer

/-- The aspect with those hooks. -/
def wrap (l : Layer σ) (t : Task σ) : Task σ := .aspect t l.before l.after

/-- Runs the hook after the task, if there is one. -/
def close (l : Layer σ) : Exec σ Unit :=
  match l.after with
  | some hook => Task.performHook hook
  | none => pure ()

theorem opens_settled (l : Layer σ) : (Task.opens l.before).Settled := by
  unfold Task.opens
  cases l.before with
  | some hook => exact performHook_settled hook
  | none => exact .pure true

theorem close_settled (l : Layer σ) : l.close.Settled := by
  unfold close
  cases l.after with
  | some hook => exact performHook_settled hook
  | none => exact .pure ()

end Layer

/-- Behind a task that has come to that result, the computation runs if it is a success. -/
def Leaves (x : Exec σ Unit) : TaskResult → Machine σ → Machine σ → Prop
  | .ok (), m, m' => x m = .finished () m'
  | .error _, m, m' => m' = m

theorem leaves_pure_iff {result : TaskResult} {m m' : Machine σ} :
    Leaves (pure ()) result m m' ↔ m' = m := by
  cases result with
  | ok =>
    constructor
    · rintro ⟨⟩
      rfl
    · rintro rfl
      rfl
  | error error => rfl

theorem leaves_bind_iff {x y : Exec σ Unit} {result : TaskResult} {m m' : Machine σ} :
    Leaves (x >>= fun _ => y) result m m' ↔
      ∃ m₁, Leaves x result m m₁ ∧ Leaves y result m₁ m' := by
  cases result with
  | ok =>
    constructor
    · intro h
      obtain ⟨_, m₁, hx, hy⟩ := Exec.finished_of_bind h
      exact ⟨m₁, hx, hy⟩
    · rintro ⟨m₁, hx, hy⟩
      exact (Exec.bind_of_finished hx).trans hy
  | error error => simp [Leaves]

section Layer

variable {l : Layer σ} {t : Task σ} {m m₁ m' : Machine σ} {result : TaskResult}

theorem execute_wrap_of_open (hopen : Task.opens l.before m = .finished true m₁) (fuel : Nat) :
    (l.wrap t).execute (fuel + 1) m =
      (t.execute fuel).andThen (l.close >>= fun _ => pure (.ok ())) m₁ := by
  simp only [Layer.wrap, Task.execute, Task.perform]
  rw [Exec.bind_of_finished hopen, if_pos rfl]
  unfold Exec.andThen Layer.close
  refine congrArg (fun f => (t.execute fuel >>= f) m₁) (funext fun result => ?_)
  cases result with
  | error error => rfl
  | ok => cases l.after <;> rfl

/-- Where the gate is open, the task and the hook after it are all that is left. -/
theorem ends_wrap_iff_of_open (hopen : Task.opens l.before m = .finished true m₁) :
    (l.wrap t).Ends m result m' ↔ ∃ m₂, t.Ends m₁ result m₂ ∧ Leaves l.close result m₂ m' := by
  constructor
  · rintro ⟨fuel, h⟩
    cases fuel with
    | zero => cases h
    | succ fuel =>
      simp only [execute_wrap_of_open hopen] at h
      obtain ⟨result', m₂, ht, h⟩ := Exec.finished_of_bind h
      cases result' with
      | ok =>
        obtain ⟨_, m₃, hclose, h⟩ := Exec.finished_of_bind h
        cases h
        exact ⟨m₂, ⟨fuel, ht⟩, hclose⟩
      | error error =>
        cases h
        exact ⟨_, ⟨fuel, ht⟩, rfl⟩
  · rintro ⟨m₂, ⟨fuel, ht⟩, hleaves⟩
    refine ⟨fuel + 1, ?_⟩
    simp only [execute_wrap_of_open hopen, Exec.andThen]
    rw [Exec.bind_of_finished ht]
    cases result with
    | ok => exact Exec.bind_of_finished hleaves
    | error error =>
      cases hleaves
      rfl

/-- A closed gate is a success at once. -/
theorem ends_wrap_iff_of_closed (hclosed : Task.opens l.before m = .finished false m₁) :
    (l.wrap t).Ends m result m' ↔ result = .ok () ∧ m' = m₁.logged (.gateClosed t.name) := by
  have hwrap (fuel : Nat) : (l.wrap t).execute (fuel + 1) m =
      .finished (.ok ()) (m₁.logged (.gateClosed t.name)) := by
    simp only [Layer.wrap, Task.execute, Task.perform]
    rw [Exec.bind_of_finished hclosed]
    rfl
  constructor
  · rintro ⟨fuel, h⟩
    cases fuel with
    | zero => cases h
    | succ fuel =>
      cases (hwrap fuel).symm.trans h
      exact ⟨rfl, rfl⟩
  · rintro ⟨rfl, rfl⟩
    exact ⟨1, hwrap 0⟩

end Layer

/-! ## Layer upon layer -/

/-- The task in the layers, the first of which is the outermost. -/
def Task.within (t : Task σ) (layers : List (Layer σ)) : Task σ := layers.foldr Layer.wrap t

/-- From `m` the gates of the layers open one after another, and the last hook ends at `m'`. -/
inductive Opened : List (Layer σ) → Machine σ → Machine σ → Prop where
  | nil {m : Machine σ} : Opened [] m m
  | cons {l : Layer σ} {layers : List (Layer σ)} {m m₁ m' : Machine σ} :
      Task.opens l.before m = .finished true m₁ → Opened layers m₁ m' → Opened (l :: layers) m m'

/-- Runs the hooks after the task in the order of the layers. -/
def closeAll : List (Layer σ) → Exec σ Unit
  | [] => pure ()
  | l :: layers => l.close >>= fun _ => closeAll layers

theorem closeAll_append (layers layers' : List (Layer σ)) :
    closeAll (layers ++ layers') = closeAll layers >>= fun _ => closeAll layers' := by
  induction layers with
  | nil => rfl
  | cons l layers ih => rw [List.cons_append, closeAll, ih, closeAll, Exec.bind_assoc]

theorem closeAll_singleton (l : Layer σ) : closeAll [l] = l.close := by
  funext m
  obtain ⟨_, m₁, h, -⟩ := l.close_settled m
  rw [closeAll, Exec.bind_of_finished h, h]
  rfl

theorem closeAll_settled (layers : List (Layer σ)) : (closeAll layers).Settled := by
  induction layers with
  | nil => exact .pure ()
  | cons l layers ih => exact l.close_settled.bind fun _ => ih

theorem Task.name_within (t : Task σ) (layers : List (Layer σ)) :
    (t.within layers).name = t.name := by
  induction layers with
  | nil => rfl
  | cons l layers ih => exact ih

section Layers

variable {layers outer inner : List (Layer σ)} {gate : Layer σ} {t : Task σ}
  {m m₁ m₂ m' : Machine σ} {result : TaskResult}

theorem Opened.gates_eq (h : Opened layers m m₁) : m₁.log.gates = m.log.gates := by
  induction h with
  | nil => rfl
  | @cons l layers m m₁ m' hopen _ ih =>
    obtain ⟨b, m₂, h, hgates⟩ := l.opens_settled m
    cases hopen.symm.trans h
    rw [ih, hgates]

/-- Either all gates open, or there is a first one that closes. -/
theorem opened_or_closed (layers : List (Layer σ)) (m : Machine σ) :
    (∃ m₁, Opened layers m m₁) ∨ ∃ outer gate inner m₁ m₂, layers = outer ++ gate :: inner ∧
      Opened outer m m₁ ∧ Task.opens gate.before m₁ = .finished false m₂ := by
  induction layers generalizing m with
  | nil => exact .inl ⟨m, .nil⟩
  | cons l layers ih =>
    obtain ⟨b, m₁, h, -⟩ := l.opens_settled m
    cases b with
    | false => exact .inr ⟨[], l, layers, m, m₁, rfl, .nil, h⟩
    | true =>
      rcases ih m₁ with ⟨m₂, hopened⟩ | ⟨outer, gate, inner, m₂, m₃, rfl, hopened, hclosed⟩
      · exact .inl ⟨m₂, .cons h hopened⟩
      · exact .inr ⟨l :: outer, gate, inner, m₂, m₃, rfl, .cons h hopened, hclosed⟩

/-- Through open gates one comes to the task, and behind it to the hooks in reverse order. -/
theorem Opened.ends_within_iff (h : Opened layers m m₁) : (t.within layers).Ends m result m' ↔
    ∃ m₂, t.Ends m₁ result m₂ ∧ Leaves (closeAll layers.reverse) result m₂ m' := by
  induction h generalizing m' with
  | nil =>
    constructor
    · intro hends
      exact ⟨m', hends, leaves_pure_iff.2 rfl⟩
    · rintro ⟨m₂, hends, hleaves⟩
      cases leaves_pure_iff.1 hleaves
      exact hends
  | @cons l layers m m₁ m₂ hopen _ ih =>
    rw [List.reverse_cons, closeAll_append, closeAll_singleton]
    constructor
    · intro hends
      obtain ⟨m₃, hends, hlast⟩ := (ends_wrap_iff_of_open hopen).1 hends
      obtain ⟨m₄, hends, hfirst⟩ := ih.1 hends
      exact ⟨m₄, hends, leaves_bind_iff.2 ⟨m₃, hfirst, hlast⟩⟩
    · rintro ⟨m₄, hends, hleaves⟩
      obtain ⟨m₃, hfirst, hlast⟩ := leaves_bind_iff.1 hleaves
      exact (ends_wrap_iff_of_open hopen).2 ⟨m₃, ih.2 ⟨m₄, hends, hfirst⟩, hlast⟩

/-- A gate that closes ends all that is inside it, and the layers around it are left. -/
theorem Opened.ends_within_iff_of_closed (h : Opened outer m m₁)
    (hclosed : Task.opens gate.before m₁ = .finished false m₂) :
    (t.within (outer ++ gate :: inner)).Ends m result m' ↔ result = .ok () ∧
      closeAll outer.reverse (m₂.logged (.gateClosed t.name)) = .finished () m' := by
  have hsplit : t.within (outer ++ gate :: inner) = (gate.wrap (t.within inner)).within outer := by
    simp [Task.within]
  rw [hsplit, h.ends_within_iff]
  constructor
  · rintro ⟨m₃, hends, hleaves⟩
    obtain ⟨rfl, rfl⟩ := (ends_wrap_iff_of_closed hclosed).1 hends
    rw [Task.name_within] at hleaves
    exact ⟨rfl, hleaves⟩
  · rintro ⟨rfl, hleaves⟩
    rw [← t.name_within inner] at hleaves
    exact ⟨_, (ends_wrap_iff_of_closed hclosed).2 ⟨rfl, rfl⟩, hleaves⟩

end Layers

/-- The name of a stack is that of its task. Either the hooks before the task let it through one
after another, the outermost first, or there is a first gate that closes. In the one case the stack
comes to what the task comes to from there; behind a success the hooks after it run, the innermost
first, and behind an error, which is passed on, none of them. In the other the stack succeeds. What
it does are the hooks before the task up to the gate, a record that names the task, and the hooks
after the task of the layers outside the gate, the innermost first. -/
theorem stacks_nest_like_brackets (layers : List (Layer σ)) (t : Task σ) (m : Machine σ) :
    (t.within layers).name = t.name ∧
    ((∃ m₁, Opened layers m m₁) ∨ ∃ outer gate inner m₁ m₂, layers = outer ++ gate :: inner ∧
      Opened outer m m₁ ∧ Task.opens gate.before m₁ = .finished false m₂) ∧
    (∀ m₁, Opened layers m m₁ →
      (∀ m', (t.within layers).Ends m (.ok ()) m' ↔
        ∃ m₂, t.Ends m₁ (.ok ()) m₂ ∧ closeAll layers.reverse m₂ = .finished () m') ∧
      (∀ m₂, ∃ m', closeAll layers.reverse m₂ = .finished () m') ∧
      ∀ error m', (t.within layers).Ends m (.error error) m' ↔ t.Ends m₁ (.error error) m') ∧
    ∀ outer gate inner m₁ m₂, layers = outer ++ gate :: inner → Opened outer m m₁ →
      Task.opens gate.before m₁ = .finished false m₂ →
      ∃ m', closeAll outer.reverse (m₂.logged (.gateClosed t.name)) = .finished () m' ∧
        (∀ result m'', (t.within layers).Ends m result m'' ↔ result = .ok () ∧ m'' = m') ∧
        m'.log.gates = m.log.gates ++ [t.name] ∧
        (Event.gateClosed t.name).record? =
          some ⟨.debug, "Aspect gate closed, skipping '" ++ t.name ++ "'"⟩ := by
  refine ⟨t.name_within layers, opened_or_closed layers m, ?_, ?_⟩
  · intro m₁ hopened
    refine ⟨fun m' => hopened.ends_within_iff, fun m₂ => ?_, fun error m' => ?_⟩
    · obtain ⟨_, m', h, -⟩ := closeAll_settled layers.reverse m₂
      exact ⟨m', h⟩
    · rw [hopened.ends_within_iff]
      constructor
      · rintro ⟨m₂, hends, hleaves⟩
        cases hleaves
        exact hends
      · intro hends
        exact ⟨m', hends, rfl⟩
  · rintro outer gate inner m₁ m₂ rfl hopened hclosed
    obtain ⟨_, m', hclose, hgates⟩ :=
      closeAll_settled outer.reverse (m₂.logged (.gateClosed t.name))
    refine ⟨m', hclose, fun result m'' => ?_, ?_, rfl⟩
    · rw [hopened.ends_within_iff_of_closed hclosed, hclose]
      constructor
      · rintro ⟨rfl, h⟩
        cases h
        exact ⟨rfl, rfl⟩
      · rintro ⟨rfl, rfl⟩
        exact ⟨rfl, rfl⟩
    · obtain ⟨_, _, hopens, hquiet⟩ := gate.opens_settled m₁
      cases hopens.symm.trans hclosed
      rw [hgates, ← hopened.gates_eq, ← hquiet]
      simp [Machine.logged, Event.gate?]

/-- A layer whose hooks say the texts. -/
def saying (before after : String) (lets : Bool) : Layer σ :=
  ⟨some (.remark (.note before) (.done lets)), some (.remark (.note after) (.done ()))⟩

/-- What is said in a stack around a task that succeeds, around one that fails, and with a gate that
closes in the middle. -/
theorem saying_layers_nest :
    let layers := [saying "in 1" "out 1" true, saying "in 2" "out 2" true]
    let closing := [saying "in 1" "out 1" true, saying "in 2" "out 2" false,
      saying "in 3" "out 3" true]
    (∃ m', (wearing.within layers).Ends (wearingAt 0 []) (.ok ()) m' ∧
      m'.log.remarks = [.note "in 1", .note "in 2", .note "out 2", .note "out 1"]) ∧
    (∃ m', (wearing.within layers).Ends (wearingAt 1 []) (.error (.plain "worn out")) m' ∧
      m'.log.remarks = [.note "in 1", .note "in 2"]) ∧
    ∃ m', (∀ result m'', (wearing.within closing).Ends (wearingAt 0 []) result m'' ↔
        result = .ok () ∧ m'' = m') ∧
      m'.log.remarks = [.note "in 1", .note "in 2",
        .record ⟨.debug, "Aspect gate closed, skipping 'wearing'"⟩, .note "out 1"] := by
  intro layers closing
  have hopened (count : Nat) : ∃ m₁, Opened layers (wearingAt count []) m₁ ∧
      m₁ = wearingAt count [.remark (.note "in 1"), .remark (.note "in 2")] :=
    ⟨_, .cons rfl (.cons rfl .nil), rfl⟩
  refine ⟨?_, ?_, ?_⟩
  · obtain ⟨m₁, hopened, rfl⟩ := hopened 0
    obtain ⟨-, -, hopen, -⟩ := stacks_nest_like_brackets layers wearing (wearingAt 0 [])
    exact ⟨_, ((hopen _ hopened).1 _).2 ⟨_, ⟨2, rfl⟩, rfl⟩, rfl⟩
  · obtain ⟨m₁, hopened, rfl⟩ := hopened 1
    obtain ⟨-, -, hopen, -⟩ := stacks_nest_like_brackets layers wearing (wearingAt 1 [])
    exact ⟨_, ((hopen _ hopened).2.2 _ _).2 ⟨2, rfl⟩, rfl⟩
  · obtain ⟨-, -, -, hclosed⟩ := stacks_nest_like_brackets closing wearing (wearingAt 0 [])
    obtain ⟨m', hclose, hends, -⟩ := hclosed [saying "in 1" "out 1" true]
      (saying "in 2" "out 2" false) _ _ _ rfl (.cons rfl .nil) rfl
    refine ⟨m', hends, ?_⟩
    cases hclose
    decide

end Workflow
