import Workflow.Failure

/-! # Workflow.Log

What a run leaves behind besides its results. An `Event` is one thing that happened, in the order of
the run; `Event.remark?` is what an observer is shown of it, which is a log record, a task's own
note, or nothing.
-/

namespace Workflow

structure ContainerId where
  index : Nat
  deriving DecidableEq

structure ContextId where
  index : Nat
  deriving DecidableEq

/-- The identity of a task object. Queues that share a task hold it under one identity. -/
structure TaskId where
  index : Nat
  deriving DecidableEq

inductive Severity where
  | debug
  | info
  | error
  deriving DecidableEq

structure Record where
  severity : Severity
  text : String
  deriving DecidableEq

inductive Remark where
  | record (record : Record)
  | note (text : String)
  deriving DecidableEq

def Remark.info (text : String) : Remark := .record ⟨.info, text⟩

/-- What a task can ask about a container. -/
inductive Query where
  | name
  | policy
  | queueCount
  /-- Whether the lock of its registered context is held. -/
  | locked
  deriving DecidableEq

inductive Event where
  /-- A task, condition or hook says something itself. -/
  | remark (remark : Remark)
  | registered (container : String)
  | reused (container : String)
  | queueAdded (container : ContainerId) (name : String) (tasks : List TaskId)
  | inspected (container : ContainerId) (query : Query)
  | runStarted (container : ContainerId) (name : String)
  | runFinished (container : ContainerId) (name : String) (summary : Summary)
  /-- A queue gives out a task, for a run of the container `origin` if it is one of its queues. -/
  | taskStarted (origin : Option ContainerId) (id : TaskId) (task : String)
  | failureNoted (failure : ExecutionError)
  | leafStarted (task : String)
  | branched (condition : Bool)
  | loopFinished (iterations : Nat)
  | caseMatched (literal : String)
  | caseDefaulted (literal : String)
  | caseMissed (literal : String)
  | gateClosed (task : String)

namespace Event

/-- The container that an event is about, where it is about its queues or a run of it. -/
def container? : Event → Option ContainerId
  | queueAdded container _ _ => some container
  | inspected container _ => some container
  | runStarted container _ => some container
  | runFinished container _ _ => some container
  | taskStarted origin _ _ => origin
  | _ => none

def record? : Event → Option Record
  | remark (.record record) => some record
  | remark (.note _) => none
  | registered container => some ⟨.info, "Registered container '" ++ container ++ "'"⟩
  | reused container =>
    some ⟨.debug, "Container '" ++ container ++ "' already registered, reusing it"⟩
  | queueAdded _ name tasks =>
    some ⟨.debug,
      "Container '" ++ name ++ "': adding queue with " ++ toString tasks.length ++ " task(s)"⟩
  | inspected _ _ => none
  | runStarted _ name => some ⟨.info, "Container '" ++ name ++ "': starting run"⟩
  | runFinished _ name summary =>
    some ⟨.info,
      "Container '" ++ name ++ "': run finished, " ++ toString summary.executed
        ++ " task(s) executed, " ++ toString summary.failures.length ++ " failure(s)"⟩
  | taskStarted _ _ task => some ⟨.debug, "Executing task '" ++ task ++ "'"⟩
  | failureNoted failure =>
    some ⟨.error, failure.message ++ "; continuing with the next task"⟩
  | leafStarted _ => none
  | branched condition =>
    some ⟨.debug, "Conditional evaluated to " ++ if condition then "true" else "false"⟩
  | loopFinished iterations =>
    some ⟨.debug, "Loop finished after " ++ toString iterations ++ " iteration(s)"⟩
  | caseMatched literal => some ⟨.debug, "Switch matched case " ++ literal⟩
  | caseDefaulted literal =>
    some ⟨.debug, "Switch fell through to the default case for " ++ literal⟩
  | caseMissed literal => some ⟨.info, "No matching case found for " ++ literal⟩
  | gateClosed task => some ⟨.debug, "Aspect gate closed, skipping '" ++ task ++ "'"⟩

def remark? : Event → Option Remark
  | remark r => some r
  | event => event.record?.map .record

end Event

abbrev Log := Array Event

namespace Log

/-- The log records, without the notes. -/
def records (log : Log) : List Record := log.toList.filterMap Event.record?

def remarks (log : Log) : List Remark := log.toList.filterMap Event.remark?

end Log
end Workflow
