import Workflow.Proofs.Congruence

/-! # Workflow.Proofs.Progress

What the engine can make of a store. It registers containers, changes their queues, and takes locks
and gives them back, and that is all. So a preorder on stores that allows each of these steps holds
between the store before a computation and the store after it.

* `Store.Progress`: a preorder that allows the steps apart from those on locks.
* `Store.Progress.compatible`, `Store.Progress.congruence`: it holds across computations.
-/

namespace Workflow

variable {σ : Domain} {α β : Type}

/-- A preorder that allows a new container to be registered and queues to be changed. -/
structure Store.Progress (P : Store σ → Store σ → Prop) : Prop where
  refl : ∀ s, P s s
  trans : ∀ {s₁ s₂ s₃}, P s₁ s₂ → P s₂ s₃ → P s₁ s₃
  register : ∀ (s : Store σ) (registry : String) (r : Registration),
    s.find? registry r.name = none → P s (s.register registry r).2
  queues : ∀ (s : Store σ) (id : ContainerId) (f : List (Queue (Task σ)) → List (Queue (Task σ))),
    P s (s.modifyContainer id fun c => { c with queues := f c.queues })

/-- Wherever `x` comes to its end, `P` holds between the stores. -/
def Exec.Moves (P : Store σ → Store σ → Prop) (x : Exec σ α) : Prop :=
  ∀ (m : Machine σ) (v : α) (m' : Machine σ), x m = .finished v m' → P m.store m'.store

namespace Store.Progress

variable {P : Store σ → Store σ → Prop}

theorem bind (hP : Progress P) {x : Exec σ α} {f : α → Exec σ β} (hx : x.Moves P)
    (hf : ∀ a, (f a).Moves P) : (x >>= f).Moves P := by
  intro m v m' h
  obtain ⟨a, m₁, h₁, h₂⟩ := Exec.finished_of_bind h
  exact hP.trans (hx m a m₁ h₁) (hf a m₁ v m' h₂)

theorem create (hP : Progress P) (registry : String) (r : Registration) :
    (Exec.create registry r).Moves P := by
  intro m v m' h
  rcases Exec.create_cases h with ⟨-, rfl⟩ | ⟨hfind, -, rfl⟩
  · exact hP.refl _
  · exact hP.register _ _ _ hfind

theorem takeQueue (hP : Progress P) (id : ContainerId) : (Exec.takeQueue id).Moves P := by
  intro m v m' h
  rcases Exec.takeQueue_cases h with ⟨-, -, rfl⟩ | ⟨queue, rest, -, -, rfl⟩
  · exact hP.refl _
  · exact hP.queues _ id fun _ => rest

theorem returnQueue (hP : Progress P) (s : Store σ) (id : ContainerId) (queue : Queue (Task σ)) :
    P s (s.returnQueue id queue) := by
  unfold Store.returnQueue
  split
  · exact hP.refl s
  · exact hP.queues s id (queue :: ·)

/-- What leaves the store alone needs no more than `refl`. -/
theorem compatible (hP : Progress P) : Exec.Compatible (fun x _ => x.Moves P) where
  outOfFuel _ _ _ _ h := by cases h
  pure _ _ _ _ h := by cases h; exact hP.refl _
  bind := hP.bind
  emit _ _ _ _ _ h := by cases h; exact hP.refl _
  ask _ _ _ _ h := by cases h; exact hP.refl _
  scope _ _ _ h := by cases h; exact hP.refl _
  setScope _ _ _ _ h := by cases h; exact hP.refl _
  swapContext _ _ _ _ h := by cases h; exact hP.refl _
  modifyState _ _ _ _ h := by cases h; exact hP.refl _
  find _ _ _ _ _ h := by cases h; exact hP.refl _
  object _ _ _ _ h := by cases h; exact hP.refl _
  create := hP.create
  inspect _ _ _ _ _ h := by cases h; exact hP.refl _
  addQueue id queue _ _ _ h := by cases h; exact hP.queues _ id (· ++ [queue])

theorem congruenceAt (hP : Progress P) (id : ContainerId) :
    Exec.CongruenceAt (fun x _ => x.Moves P) id where
  emit _ _ _ _ _ h := by cases h; exact hP.refl _
  name _ _ _ h := by cases h; exact hP.refl _
  policy _ _ _ h := by cases h; exact hP.refl _
  takeQueue := hP.takeQueue id
  returnQueue queue _ _ _ h := by cases h; exact hP.returnQueue _ id queue

theorem congruence (hP : Progress P)
    (hlocks : ∀ (s : Store σ) (id : ContextId) (f : SharedContext → SharedContext),
      P s (s.modifyContext id f)) : Exec.Congruence (fun x _ => x.Moves P) where
  toCompatible := hP.compatible
  lock _ _ _ _ h := by
    obtain ⟨-, -, rfl⟩ := Exec.lock_cases h
    exact hlocks _ _ _
  unlock _ _ _ _ _ h := by cases h; exact hlocks _ _ _

end Store.Progress

end Workflow
