import Workflow.Task

/-! # Workflow.Scenario.Objects

The state of the tasks that are made from plans: a supply of identities, the counters that tasks and
conditions keep, each known to its owner by its place, and the names under which objects are kept.
-/

namespace Workflow
namespace Scenario

structure Objects where
  handles : Nat
  counters : Array Nat
  kept : Table Reference

namespace Objects

def empty : Objects := ⟨0, #[], Table.empty⟩

def newId (o : Objects) : TaskId × Objects := (⟨o.handles⟩, { o with handles := o.handles + 1 })

/-- A counter that stands at zero. -/
def newCounter (o : Objects) : Nat × Objects :=
  (o.counters.size, { o with counters := o.counters.push 0 })

/-- What a counter stood at, and the state after counting. -/
def count (o : Objects) (counter : Nat) : Nat × Objects :=
  (o.counters.getD counter 0, { o with counters := o.counters.modify counter (· + 1) })

/-- Keeps an object under a name. What was kept under it before is kept no more. -/
def keep (o : Objects) (name : String) (reference : Reference) : Objects :=
  { o with kept := o.kept.insert name reference }

end Objects

/-- The making of a task: it may draw on the supplies. -/
abbrev Build := StateM Objects

abbrev Object := Handle (Task Objects)

/-- Gives a task an identity of its own. -/
def newObject (task : Task Objects) : Build Object := do
  return ⟨← modifyGet Objects.newId, task⟩

end Scenario
end Workflow
