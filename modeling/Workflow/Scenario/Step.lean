import Workflow.Run
import Workflow.Scenario.Plan

/-! # Workflow.Scenario.Step

The steps of a session and the replies to them. A step finds the contexts, queues, tasks, containers
and registries that it works on by names.
-/

namespace Workflow
namespace Scenario

/-- Where a new context comes from. -/
inductive Source where
  | empty
  | pairs (pairs : List (String × Value))
  | json (text : String)

inductive ContextStep where
  | make (source : Source)
  | insert (key : String) (value : Value)
  | get (key : String)
  | examine (key : String)
  | getInt (key : String)
  | getText (key : String)
  | getBool (key : String)
  | contains (key : String)
  | erase (key : String)
  | size
  | keys
  | increment (key : String) (amount : Int64)
  | jsonText
  | entries
  | asValue
  | same (other : String)
  | copy (target : String)
  | perform (plan : Plan)

inductive TaskStep where
  | keep (name : String) (plan : Plan)
  | same (a b : String)
  | describe (plan : Plan)

/-- How a task comes into a queue: inside a new object, or as the object that it is. -/
inductive Entry where
  | wrapped
  | shared

inductive QueueStep where
  | make (plans : List Plan) (entry : Entry)
  | push (plan : Plan) (entry : Entry)
  /-- Keeps the task under the name, if one is given. -/
  | dequeue (name : Option String)
  | size
  | listing (indented : Bool)
  | copy (target : String)
  /-- Drains the queue up to the first failure, and answers with a count. -/
  | count (context : String)
  | drain (context : String) (policy : Policy)

/-- Steps that begin with the look-up of a container. -/
inductive ContainerStep where
  | write (key : String) (value : Value)
  | add (queues : List (List Plan))
  | addCopy (queue : String)
  | count
  | run
  | execute (context : String)

inductive RegistryStep where
  | create (registration : Registration) (handle : Option String)
  | find (name : String) (handle : Option String)
  | same (a b : String)
  /-- Whether the context of that name is the context of the container. -/
  | sameContext (handle name : String)
  | contains (name : String)
  | names
  | size
  | context (name : String)
  | container (name : String) (step : ContainerStep)

inductive Step where
  | context (slot : String) (step : ContextStep)
  | task (step : TaskStep)
  | queue (slot : String) (step : QueueStep)
  | registry (registry : String) (step : RegistryStep)

/-- Why a step has no answer. -/
inductive Refusal where
  | notJson
  | noContainer
  /-- No task or container is kept under the name. -/
  | unknown (name : String)
  /-- A run would wait for a lock that is never given back. -/
  | deadlock
  | outOfFuel

inductive Reply where
  | nothing
  | flag (value : Bool)
  | count (n : Nat)
  | extent (size : Nat) (isEmpty : Bool)
  | text (text : String)
  | texts (texts : List String)
  | integer (value : Int64)
  | value (value : Value)
  /-- A value with all that can be read off it. -/
  | examined (value : Value)
  | entries (context : Context)
  | optional (reply : Option Reply)
  | increased (count : Int64) (stored : Option Value)
  /-- A switch has a number of cases, and a loop a limit or none. -/
  | description (name : String) (cases : Option Nat) (limit : Option (Option Nat))
  | performed (result : TaskResult) (context : Context)
  | counted (result : Except ExecutionError Nat) (left : String) (context : Context)
  | drained (result : RunResult) (left : String) (context : Context)
  | container (view : ContainerView) (context : Context)
  | ran (result : RunResult) (left : Nat) (context : Context)
  | refused (reason : Refusal)

end Scenario
end Workflow
