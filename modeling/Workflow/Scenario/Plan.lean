import Workflow.Task

/-! # Workflow.Scenario.Plan

Descriptions of tasks, from which a task can be made any number of times. A `Test` describes a
condition, a `Selection` the selector of a switch, an `Effect` a thing done that cannot fail, an
`Action` a thing done by a leaf, and a `Plan` a task.
-/

namespace Workflow
namespace Scenario

/-- A condition. `countBelow` holds as long as it was asked fewer times than the bound says. -/
inductive Test where
  | always
  | never
  | has (key : String)
  | intLess (key : String) (bound : Int64)
  | intEqual (key : String) (value : Int64)
  | even (key : String)
  | textEqual (key value : String)
  | flag (key : String)
  | floatLess (key : String) (bound : Double)
  | isNull (key : String)
  | isEmpty
  | sizeBelow (bound : Nat)
  | countBelow (bound : Int64)
  | noted (label : String) (test : Test)
  | not (test : Test)
  | all (tests : List Test)
  | any (tests : List Test)

/-- The selector of a switch. `tick` answers with the number of times it was asked before. -/
inductive Selection where
  | constant (text : String)
  | text (key fallback : String)
  | int (key : String)
  | optionalInt (key : String)
  | bool (key : String)
  | display (key : String)
  | tick

/-- How a container is put to work: on the context at hand, or on its own. -/
inductive CallMode where
  | execute
  | run

mutual

/-- A thing done that cannot fail. -/
inductive Effect where
  | set (key : String) (value : Value)
  | increment (key : String) (amount : Int64)
  | erase (key : String)
  | copy (source target : String)
  /-- Puts a copy of the whole context under the key. -/
  | fold (key : String)
  | note (label : String)
  | show (key : String)
  | create (registry : String) (registration : Registration)
  | add (registry container : String) (plans : List Plan)
  /-- Notes whether a run of the container is in progress. -/
  | locked (registry container : String)

/-- A thing done by a leaf. A call that is caught notes its failure and goes on. -/
inductive Action where
  | effect (effect : Effect)
  | fail (error : TaskError)
  | call (mode : CallMode) (registry container : String) (caught : Bool)

/-- A task. The queues of a branch and a loop are made once if they are templates, and anew at each
use otherwise. An aspect is given its hooks one after the other, and each replaces the one before;
a hook before the task ends with a test. -/
inductive Plan where
  | counter (name key : String)
  | step (name : String) (actions : List Action)
  /-- Counts its own executions from one, and fails in those that are listed. -/
  | flaky (name : String) (failing : List Int)
  | branch (test : Test) (thenPlans elsePlans : List Plan) (template : Bool)
  | loop (test : Test) (limit : Option Nat) (body : List Plan) (template : Bool)
  | switch (selection : Selection) (registrations : List CaseRegistration)
  | aspect (plan : Plan) (before : List (List Effect × Test)) (after : List (List Effect))
  /-- The task that is kept under the name at the time of making. -/
  | kept (name : String)

inductive CaseRegistration where
  | case (key : Key) (plans : List Plan)
  | cases (cases : List (Key × List Plan))
  | fallback (plans : List Plan)

end

namespace Action

def failPlain (message : String) : Action := .fail (.plain message)

def taskFailed (task message : String) : ExecutionError := .taskFailed task (.plain message)

def failExecution (task message : String) : Action := .fail (.execution (taskFailed task message))

def failLimit (task : String) (limit : Nat) : Action :=
  .fail (.execution (.iterationLimitExceeded task limit))

/-- Fails with an error of the leaf's own that is caused by a failure. -/
def failWrapped (task message : String) : Action :=
  let cause := taskFailed task message
  .fail (.caused ("wrapped(" ++ cause.message ++ ")") (.execution cause))

end Action
end Scenario
end Workflow
