import Workflow.Proofs.Growth

/-! # Workflow.Proofs.Container.History

What the events of a run say of one container: the tasks that its runs gave out, the queues that
were added to it, and whether anybody else than its run took notice of its queues or its policy.
-/

namespace Workflow

namespace Event

/-- The task that a run of the container gives out. -/
def started? (id : ContainerId) : Event → Option TaskId
  | taskStarted (some container) task _ => if container = id then some task else none
  | _ => none

/-- The tasks of a queue that is added to the container. -/
def added? (id : ContainerId) : Event → Option (List TaskId)
  | queueAdded container _ tasks => if container = id then some tasks else none
  | _ => none

theorem started?_eq_none {id : ContainerId} {e : Event} (h : e.container? ≠ some id) :
    e.started? id = none := by
  unfold started?
  split
  · simp only [container?, ne_eq, Option.some.injEq] at h
    simp [h]
  · rfl

theorem added?_eq_none {id : ContainerId} {e : Event} (h : e.container? ≠ some id) :
    e.added? id = none := by
  unfold added?
  split
  · simp only [container?, ne_eq, Option.some.injEq] at h
    simp [h]
  · rfl

end Event

/-- The tasks that runs of the container gave out, in order. -/
def startedBy (id : ContainerId) (events : List Event) : List TaskId :=
  events.filterMap (Event.started? id)

/-- The queues that were added to the container, in order, each as the list of its tasks. -/
def addedTo (id : ContainerId) (events : List Event) : List (List TaskId) :=
  events.filterMap (Event.added? id)

@[simp] theorem startedBy_append (id : ContainerId) (l₁ l₂ : List Event) :
    startedBy id (l₁ ++ l₂) = startedBy id l₁ ++ startedBy id l₂ := List.filterMap_append

@[simp] theorem addedTo_append (id : ContainerId) (l₁ l₂ : List Event) :
    addedTo id (l₁ ++ l₂) = addedTo id l₁ ++ addedTo id l₂ := List.filterMap_append

/-- No run of the container starts and nobody asks for the number of its queues. -/
structure Unseen (id : ContainerId) (events : List Event) : Prop where
  not_run : ∀ name, Event.runStarted id name ∉ events
  not_counted : Event.inspected id .queueCount ∉ events

theorem unseen_append {id : ContainerId} {l₁ l₂ : List Event} :
    Unseen id (l₁ ++ l₂) ↔ Unseen id l₁ ∧ Unseen id l₂ := by
  constructor
  · rintro ⟨hrun, hcount⟩
    simp only [List.mem_append, not_or] at hrun hcount
    exact ⟨⟨fun name => (hrun name).1, hcount.1⟩, ⟨fun name => (hrun name).2, hcount.2⟩⟩
  · rintro ⟨h₁, h₂⟩
    refine ⟨fun name h => ?_, fun h => ?_⟩
    · exact (List.mem_append.1 h).elim (h₁.not_run name) (h₂.not_run name)
    · exact (List.mem_append.1 h).elim h₁.not_counted h₂.not_counted

/-- One policy of the container can stand for the other: they are the same, or nobody asks. -/
def Alike (id : ContainerId) (p policy : Policy) (events : List Event) : Prop :=
  p = policy ∨ .inspected id .policy ∉ events

theorem Alike.subset {id : ContainerId} {p policy : Policy} {events part : List Event}
    (h : Alike id p policy events) (hpart : part ⊆ events) : Alike id p policy part := by
  rcases h with heq | hunasked
  · exact .inl heq
  · right
    intro hmem
    exact hunasked (hpart hmem)

end Workflow
