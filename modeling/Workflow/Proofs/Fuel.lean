import Workflow.Proofs.Congruence

/-! # Workflow.Proofs.Fuel

Fuel only bounds a computation and does not steer it. What ends with some fuel ends in the same way
with any more, so `Ends x m v m'`, that some fuel brings `x` from `m` to `v` and `m'`, says all that
there is to say of a computation that comes to its end.

* `Task.execute_rising`, `ContainerId.execute_rising`: more fuel changes no outcome.
* `Ends.eventually`: the fuel can be as large as one likes.
* `Ends.deterministic`: there is one end.
-/

namespace Workflow

variable {σ : Domain} {α β : Type}

theorem Exec.bind_of_outOfFuel {x : Exec σ α} {m : Machine σ} (h : x m = .outOfFuel)
    (f : α → Exec σ β) : (x >>= f) m = .outOfFuel := by
  simp only [Bind.bind, Exec.bind, h]

/-- `y` does what `x` does wherever the fuel of `x` suffices. -/
def Exec.Extends (x y : Exec σ α) : Prop := ∀ m, x m ≠ .outOfFuel → y m = x m

theorem Exec.Extends.refl (x : Exec σ α) : x.Extends x := fun _ _ => rfl

theorem Exec.Extends.bind {x y : Exec σ α} {f g : α → Exec σ β} (hxy : x.Extends y)
    (hfg : ∀ a, (f a).Extends (g a)) : (x >>= f).Extends (y >>= g) := by
  intro m h
  have hx : x m ≠ .outOfFuel := fun hx => h (bind_of_outOfFuel hx f)
  simp only [Bind.bind, Exec.bind, hxy m hx] at h ⊢
  cases hm : x m with
  | finished value m' =>
    rw [hm] at h
    exact hfg value m' h
  | blocked container m' => rfl
  | outOfFuel => exact absurd hm hx

theorem Exec.Extends.finished {x y : Exec σ α} (h : x.Extends y) {m m' : Machine σ} {v : α}
    (hx : x m = .finished v m') : y m = .finished v m' := by
  rw [h m (by rw [hx]; nofun), hx]

theorem Exec.congruence_extends : Exec.Congruence (σ := σ) Exec.Extends where
  outOfFuel _ _ h := absurd rfl h
  pure _ := .refl _
  bind := .bind
  emit _ _ := .refl _
  ask _ := .refl _
  scope := .refl _
  setScope _ := .refl _
  swapContext _ := .refl _
  modifyState _ := .refl _
  find _ _ := .refl _
  object _ := .refl _
  create _ _ := .refl _
  inspect _ _ := .refl _
  addQueue _ _ := .refl _
  lock _ := .refl _
  unlock _ _ := .refl _

theorem Exec.congruenceAt_extends (id : ContainerId) :
    Exec.CongruenceAt (σ := σ) Exec.Extends id where
  emit _ _ := .refl _
  name := .refl _
  policy := .refl _
  takeQueue := .refl _
  returnQueue _ := .refl _

/-! ## Computations that are given fuel -/

/-- More fuel changes no outcome. -/
def Rising (x : Nat → Exec σ α) : Prop := ∀ fuel fuel', fuel ≤ fuel' → (x fuel).Extends (x fuel')

/-- With some fuel, `x` goes from `m` to its end at `m'` and answers `v`. -/
def Ends (x : Nat → Exec σ α) (m : Machine σ) (v : α) (m' : Machine σ) : Prop :=
  ∃ fuel, x fuel m = .finished v m'

theorem Ends.eventually {x : Nat → Exec σ α} (hx : Rising x) {m m' : Machine σ} {v : α}
    (h : Ends x m v m') : ∃ enough, ∀ fuel, enough ≤ fuel → x fuel m = .finished v m' := by
  obtain ⟨enough, h⟩ := h
  exact ⟨enough, fun fuel hle => (hx enough fuel hle).finished h⟩

theorem Ends.deterministic {x : Nat → Exec σ α} (hx : Rising x) {m m₁ m₂ : Machine σ} {v₁ v₂ : α}
    (h₁ : Ends x m v₁ m₁) (h₂ : Ends x m v₂ m₂) : v₁ = v₂ ∧ m₁ = m₂ := by
  obtain ⟨enough₁, h₁⟩ := h₁.eventually hx
  obtain ⟨enough₂, h₂⟩ := h₂.eventually hx
  have h := (h₁ _ (Nat.le_max_left enough₁ enough₂)).symm.trans
    (h₂ _ (Nat.le_max_right enough₁ enough₂))
  cases h
  exact ⟨rfl, rfl⟩

/-- With fuel enough the computation comes to the outcome: an end, or a lock to wait for. -/
def ComesTo (x : Nat → Exec σ α) (m : Machine σ) (o : Outcome σ α) : Prop :=
  o ≠ .outOfFuel ∧ ∃ fuel, x fuel m = o

/-- Outcomes of `x` are outcomes of `x'` if `x'` has fuel enough for all that `x` does. -/
theorem ComesTo.of_extends {x x' : Nat → Exec σ α} {m : Machine σ} {o : Outcome σ α}
    (h : ∀ fuel, ∃ fuel', (x fuel).Extends (x' fuel')) (hx : ComesTo x m o) : ComesTo x' m o := by
  obtain ⟨hne, fuel, rfl⟩ := hx
  obtain ⟨fuel', h⟩ := h fuel
  exact ⟨hne, fuel', h m hne⟩

/-- `x` comes to that outcome with all but too little fuel. -/
def Eventually (x : Nat → Exec σ α) (m : Machine σ) (o : Outcome σ α) : Prop :=
  ∃ enough, ∀ fuel, enough ≤ fuel → x fuel m = o

namespace Eventually

variable {x : Nat → Exec σ α} {f : Nat → α → Exec σ β} {m m₁ : Machine σ} {a : α}
  {o : Outcome σ α} {o' : Outcome σ β}

theorem always (h : ∀ fuel, x fuel m = o) : Eventually x m o := ⟨0, fun fuel _ => h fuel⟩

theorem bind (hx : Eventually x m (.finished a m₁)) (hf : Eventually (fun n => f n a) m₁ o') :
    Eventually (fun n => x n >>= f n) m o' := by
  obtain ⟨enough, hx⟩ := hx
  obtain ⟨enough', hf⟩ := hf
  refine ⟨max enough enough', fun fuel hle => ?_⟩
  have h₁ : enough ≤ fuel := by omega
  have h₂ : enough' ≤ fuel := by omega
  exact (Exec.bind_of_finished (hx fuel h₁)).trans (hf fuel h₂)

theorem bind_of_blocked {c : ContainerId} (hx : Eventually x m (.blocked c m₁)) :
    Eventually (fun n => x n >>= f n) m (.blocked c m₁) := by
  obtain ⟨enough, hx⟩ := hx
  exact ⟨enough, fun fuel hle => Exec.bind_of_blocked (hx fuel hle) (f fuel)⟩

/-- Nothing hangs on the first amounts of fuel. -/
theorem of_succ (h : Eventually (fun n => x (n + 1)) m o) : Eventually x m o := by
  obtain ⟨enough, h⟩ := h
  refine ⟨enough + 1, fun fuel hle => ?_⟩
  obtain ⟨n, rfl⟩ : ∃ n, fuel = n + 1 := ⟨fuel - 1, by omega⟩
  exact h n (by omega)

theorem succ (h : Eventually x m o) : Eventually (fun n => x (n + 1)) m o := by
  obtain ⟨enough, h⟩ := h
  exact ⟨enough, fun fuel hle => h (fuel + 1) (by omega)⟩

end Eventually

/-- `x` comes to that end with all but too little fuel. -/
def EndsEventually (x : Nat → Exec σ α) (m : Machine σ) (v : α) (m' : Machine σ) : Prop :=
  ∃ enough, ∀ fuel, enough ≤ fuel → x fuel m = .finished v m'

namespace EndsEventually

variable {x : Nat → Exec σ α} {f : Nat → α → Exec σ β} {m m₁ m₂ : Machine σ} {a : α} {b : β}

theorem always (h : ∀ fuel, x fuel m = .finished a m₁) : EndsEventually x m a m₁ :=
  Eventually.always h

theorem ends (h : EndsEventually x m a m₁) : Ends x m a m₁ := by
  obtain ⟨enough, h⟩ := h
  exact ⟨enough, h enough (Nat.le_refl _)⟩

theorem bind (hx : EndsEventually x m a m₁) (hf : EndsEventually (fun n => f n a) m₁ b m₂) :
    EndsEventually (fun n => x n >>= f n) m b m₂ := Eventually.bind hx hf

theorem of_succ (h : EndsEventually (fun n => x (n + 1)) m a m₁) : EndsEventually x m a m₁ :=
  Eventually.of_succ h

theorem succ (h : EndsEventually x m a m₁) : EndsEventually (fun n => x (n + 1)) m a m₁ :=
  Eventually.succ h

end EndsEventually

theorem Task.execute_rising (t : Task σ) : Rising (fun fuel => t.execute fuel) := by
  intro fuel fuel' hle
  exact Exec.congruence_extends.execute
    (fun id _ _ _ _ hle hexec =>
      Exec.congruence_extends.executeContainer (Exec.congruenceAt_extends id) hexec hle) hle t

theorem drain_rising (policy : Policy) (origin : Option ContainerId)
    (handles : List (Handle (Task σ))) :
    Rising (fun fuel => drain (Task.execute fuel) policy origin handles) := by
  intro fuel fuel' hle
  exact Exec.congruence_extends.drain (fun t => t.execute_rising fuel fuel' hle) policy
    (fun _ _ => .refl _) handles

theorem drainWithin_rising (queue : Queue (Task σ)) :
    Rising (fun fuel => drainWithin (Task.execute fuel) queue) := by
  intro fuel fuel' hle
  exact Exec.congruence_extends.drainWithin (fun t => t.execute_rising fuel fuel' hle) queue

/-- The tasks and the queues of a run may be given fuel apart from each other. -/
theorem drainContainer_extends (id : ContainerId) {k k' fuel fuel' : Nat} (hk : k ≤ k')
    (hfuel : fuel ≤ fuel') : (drainContainer (Task.execute (σ := σ) k) id fuel).Extends
      (drainContainer (Task.execute k') id fuel') :=
  Exec.congruence_extends.drainContainer (Exec.congruenceAt_extends id)
    (fun t => t.execute_rising k k' hk) hfuel

/-- Likewise the tasks and the passes of a loop. -/
theorem iterate_extends (name : String) (condition : Condition σ) (limit : Option Nat)
    (body : Factory σ (Task σ)) (iterations : Nat) {k k' fuel fuel' : Nat} (hk : k ≤ k')
    (hfuel : fuel ≤ fuel') :
    (iterate (Task.execute k) name condition limit body iterations fuel).Extends
      (iterate (Task.execute k') name condition limit body iterations fuel') :=
  Exec.congruence_extends.iterate (fun t => t.execute_rising k k' hk) name condition limit body
    iterations hfuel

theorem ContainerId.execute_rising (id : ContainerId) :
    Rising (fun fuel => id.execute (σ := σ) fuel) := by
  intro fuel fuel' hle
  exact Exec.congruence_extends.executeContainer (Exec.congruenceAt_extends id)
    (fun t => t.execute_rising fuel fuel' hle) hle

theorem ContainerId.run_rising (id : ContainerId) :
    Rising (fun fuel => id.run (σ := σ) fuel) := by
  intro fuel fuel' hle
  exact Exec.congruence_extends.runContainer (id.execute_rising fuel fuel' hle)

theorem Call.answer_rising (request : Call) :
    Rising (fun fuel => request.answer (Task.execute (σ := σ) fuel) fuel) := by
  cases request with
  | execute id => exact id.execute_rising
  | run id => exact id.run_rising

end Workflow
