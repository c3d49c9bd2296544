import Workflow.Key

/-! # Workflow.Domain

The types that a workflow is built over.
-/

namespace Workflow

/-- The state that the tasks of a workflow keep, and the keys that its switches tell their cases
apart by, with the text that log records show of a key. -/
structure Domain where
  State : Type
  Key : Type
  [decidableEqKey : DecidableEq Key]
  literal : Key → String

namespace Domain

attribute [instance] decidableEqKey

instance : CoeSort Domain Type := ⟨State⟩

/-- This state, with keys of the common kinds. -/
abbrev keyed (State : Type) : Domain where
  State := State
  Key := Workflow.Key
  literal := Key.literal

instance : Coe Type Domain := ⟨keyed⟩

end Domain
end Workflow
