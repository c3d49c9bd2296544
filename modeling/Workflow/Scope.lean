import Workflow.Context
import Workflow.Domain
import Workflow.Log

/-! # Workflow.Scope

What a task works on: the context handed to it, and state that tasks keep for themselves from one
execution to the next. `σ` is the store of all of that state, so a task is a plain value, and two
queues that share a task meet in the same part of the store.

A question about a scope may keep state and say things. It asks nothing of containers or registries;
that is for leaves and hooks.
-/

namespace Workflow

/-- What a task sees and changes: the context handed to it, and the store of the tasks' state. -/
structure Scope (σ : Domain) where
  context : Context
  state : σ

/-- The answer to a question about a scope. Asking may change the state, but not the context. -/
structure Answer (σ : Domain) (α : Type) where
  value : α
  state : σ
  remarks : List Remark

abbrev Condition (σ : Domain) := Scope σ → Answer σ Bool

def Answer.of {σ : Domain} {α : Type} (scope : Scope σ) (value : α) : Answer σ α :=
  ⟨value, scope.state, []⟩

end Workflow
