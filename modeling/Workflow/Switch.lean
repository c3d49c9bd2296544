import Workflow.Queue
import Workflow.Scope

/-! # Workflow.Switch

A choice between queues by a key. The last registration for a key counts.
-/

namespace Workflow

/-- Cases in the order of their first registration, each key once. -/
structure Switch (σ : Domain) (τ : Type) where
  selector : Scope σ → Answer σ σ.Key
  cases : List (σ.Key × Queue τ)
  fallback : Option (Queue τ)

namespace Switch

variable {σ : Domain} {τ : Type}

def new (selector : Scope σ → Answer σ σ.Key) : Switch σ τ := ⟨selector, [], none⟩

def register (key : σ.Key) (queue : Queue τ) : List (σ.Key × Queue τ) → List (σ.Key × Queue τ)
  | [] => [(key, queue)]
  | (k, q) :: rest => if k = key then (key, queue) :: rest else (k, q) :: register key queue rest

/-- Registers a case; an earlier one with the same key gives way. -/
def withCase (s : Switch σ τ) (key : σ.Key) (queue : Queue τ) : Switch σ τ :=
  { s with cases := register key queue s.cases }

def withCases (s : Switch σ τ) (cases : List (σ.Key × Queue τ)) : Switch σ τ :=
  cases.foldl (fun s (key, queue) => s.withCase key queue) s

def withDefault (s : Switch σ τ) (queue : Queue τ) : Switch σ τ := { s with fallback := some queue }

def caseCount (s : Switch σ τ) : Nat := s.cases.length

def case? (s : Switch σ τ) (key : σ.Key) : Option (Queue τ) := s.cases.lookup key

end Switch

end Workflow
