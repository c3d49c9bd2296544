import Workflow.Domain
import Workflow.Log

/-! # Workflow.Queue

Tasks in the order of their execution. A queue is a value: a copy of one is unaffected by what
becomes of the other. It holds its tasks under their identities, and a task that two queues hold
under one identity is the same object in both.
-/

namespace Workflow

/-- A task as an object. -/
structure Handle (τ : Type) where
  id : TaskId
  task : τ

structure Queue (τ : Type) where
  handles : List (Handle τ)

namespace Queue

variable {τ : Type}

def empty : Queue τ := ⟨[]⟩

instance : Inhabited (Queue τ) := ⟨empty⟩

def size (q : Queue τ) : Nat := q.handles.length

def isEmpty (q : Queue τ) : Bool := q.handles.isEmpty

def ids (q : Queue τ) : List TaskId := q.handles.map Handle.id

def push (q : Queue τ) (handle : Handle τ) : Queue τ := ⟨q.handles ++ [handle]⟩

/-- The first handle and the queue without it. -/
def dequeue? (q : Queue τ) : Option (Handle τ × Queue τ) :=
  match q.handles with
  | [] => none
  | handle :: rest => some (handle, ⟨rest⟩)

end Queue

/-- A source of queues. A template gives the same tasks each time, a builder makes new ones. A builder
has the state and nothing else: it says nothing and makes use of no containers. -/
inductive Factory (σ : Domain) (τ : Type) where
  | template (queue : Queue τ)
  | builder (make : σ → Queue τ × σ)

end Workflow
