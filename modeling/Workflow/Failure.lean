/-! # Workflow.Failure

How tasks fail. A task raises a `TaskError`; what a run reports is an `ExecutionError`, which names
the task that failed. `TaskError.attributed` is the step from the one to the other: an error that
names its task already is passed on as it is.
-/

namespace Workflow

mutual

/-- The failure of a run. -/
inductive ExecutionError where
  | taskFailed (task : String) (source : TaskError)
  | iterationLimitExceeded (task : String) (limit : Nat)

/-- The error of a task: a run's failure, or an error of the task's own, with or without a cause. -/
inductive TaskError where
  | execution (error : ExecutionError)
  | plain (message : String)
  | caused (message : String) (cause : TaskError)

end

instance : Inhabited ExecutionError := ⟨.iterationLimitExceeded "" 0⟩
instance : Inhabited TaskError := ⟨.plain ""⟩

mutual

def ExecutionError.message : ExecutionError → String
  | .taskFailed task source => "task '" ++ task ++ "' failed: " ++ source.message
  | .iterationLimitExceeded task limit =>
    "loop '" ++ task ++ "' exceeded its limit of " ++ toString limit ++ " iterations"

def TaskError.message : TaskError → String
  | .execution error => error.message
  | .plain message => message
  | .caused message _ => message

end

mutual

/-- The messages of the causes, the nearest first. -/
def ExecutionError.causes : ExecutionError → List String
  | .taskFailed _ source => source.message :: source.causes
  | .iterationLimitExceeded _ _ => []

def TaskError.causes : TaskError → List String
  | .execution error => error.causes
  | .plain _ => []
  | .caused _ cause => cause.message :: cause.causes

end

/-- The task that the failure is charged to. -/
def ExecutionError.task : ExecutionError → String
  | .taskFailed task _ => task
  | .iterationLimitExceeded task _ => task

def ExecutionError.limit? : ExecutionError → Option Nat
  | .taskFailed _ _ => none
  | .iterationLimitExceeded _ limit => some limit

/-- The failure that the queue of a task reports for the task's error. -/
def TaskError.attributed (task : String) : TaskError → ExecutionError
  | .execution error => error
  | error => .taskFailed task error

/-- What a run does when a task of its queues fails: give up, or note the failure and go on. -/
inductive Policy where
  | failFast
  | keepGoing
  deriving DecidableEq

/-- The account of a run that came to its end: the tasks that succeeded, and the failures that were
noted. -/
structure Summary where
  executed : Nat
  failures : List ExecutionError

namespace Summary

def empty : Summary := ⟨0, []⟩

def isSuccess (s : Summary) : Bool := s.failures.isEmpty

def append (s t : Summary) : Summary := ⟨s.executed + t.executed, s.failures ++ t.failures⟩

instance : Append Summary := ⟨append⟩

def ofSuccess : Summary := ⟨1, []⟩

def ofFailure (failure : ExecutionError) : Summary := ⟨0, [failure]⟩

theorem append_def (s t : Summary) :
    s ++ t = ⟨s.executed + t.executed, s.failures ++ t.failures⟩ := rfl

theorem empty_append (s : Summary) : empty ++ s = s := by
  simp [append_def, empty]

theorem append_empty (s : Summary) : s ++ empty = s := by
  simp [append_def, empty]

theorem append_assoc (s t u : Summary) : s ++ t ++ u = s ++ (t ++ u) := by
  simp [append_def, Nat.add_assoc]

end Summary
end Workflow
