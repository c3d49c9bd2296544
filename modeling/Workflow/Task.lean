import Workflow.Program
import Workflow.Switch

/-! # Workflow.Task

Leaves and the tasks built from other tasks, as data.
-/

namespace Workflow

/-- The result of executing a task. -/
abbrev TaskResult := Except TaskError Unit

/-- What stands for a task object that is kept elsewhere. -/
structure Reference where
  id : TaskId
  name : String

/-- Tasks. A branch, a loop and a switch run queues that they take from their factories or cases; an
aspect puts hooks around a task, and `shared` is a task in a wrapper that adds nothing. A
`reference` is the object that it refers to, which may be the very task whose queue it stands in. -/
inductive Task (σ : Domain) where
  | leaf (name : String) (body : Program σ (Task σ) Call (Except TaskError Unit))
  | conditional (condition : Condition σ) (thenQueue elseQueue : Factory σ (Task σ))
  | loop (condition : Condition σ) (limit : Option Nat) (body : Factory σ (Task σ))
  | switch (switch : Switch σ (Task σ))
  | aspect (task : Task σ) (before : Option (Program σ (Task σ) Empty Bool))
      (after : Option (Program σ (Task σ) Empty Unit))
  | shared (task : Task σ)
  | reference (reference : Reference)

/-- A program that may wait for a run of a container. -/
abbrev Leaf (σ : Domain) (α : Type) := Program σ (Task σ) Call α

/-- A program that may not. -/
abbrev Hook (σ : Domain) (α : Type) := Program σ (Task σ) Empty α

namespace Task

variable {σ : Domain}

/-- The name of a leaf that is given none. -/
def defaultName : String := "task"

/-- The name in log records and failures. Wrapping a task or referring to it keeps the name. -/
def name : Task σ → String
  | leaf name _ => name
  | conditional .. => "conditional"
  | loop .. => "loop"
  | switch .. => "switch"
  | aspect task _ _ => task.name
  | shared task => task.name
  | reference r => r.name

end Task

def Queue.names {σ : Domain} (q : Queue (Task σ)) : List String := q.handles.map (·.task.name)

end Workflow
