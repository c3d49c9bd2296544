import Workflow.Scenario.Objects
import Workflow.Scenario.Plan
import Workflow.Task.Counter

/-! # Workflow.Scenario.Build

Making tasks from plans. What is made anew at each use, the queues of a branch or a loop that are no
templates and the queues that an effect adds, has counters that stand at zero, and finds under each
name what is kept there by then. So a kept task may come to stand in a queue of its own.
-/

namespace Workflow
namespace Scenario

/-- A condition without state of its own. -/
def reads (f : Context → Bool) : Condition Objects := fun scope => .of scope (f scope.context)

/-- The conditions in order, as far as they are needed; `holds` is the answer that goes on to the
next one, and the answer of none. -/
def inOrder (holds : Bool) : List (Condition Objects) → Condition Objects
  | [], scope => .of scope holds
  | condition :: rest, scope =>
    let answer := condition scope
    if answer.value == holds then
      let next := inOrder holds rest { scope with state := answer.state }
      { next with remarks := answer.remarks ++ next.remarks }
    else answer

mutual

def Test.build : Test → Build (Condition Objects)
  | .always => return reads fun _ => true
  | .never => return reads fun _ => false
  | .has key => return reads (·.contains key)
  | .intLess key bound => return reads fun c => (c.getInt? key).getD 0 < bound
  | .intEqual key value => return reads fun c => c.getInt? key == some value
  | .even key => return reads fun c => (c.getInt? key).getD 0 % 2 == 0
  | .textEqual key value => return reads fun c => c.getText? key == some value
  | .flag key => return reads fun c => (c.getBool? key).getD false
  | .floatLess key bound => return reads fun c =>
      match (c.get? key).bind Value.asFloat? with
      | some x => x.lt bound
      | none => false
  | .isNull key => return reads fun c => (c.get? key).any Value.isNull
  | .isEmpty => return reads Context.isEmpty
  | .sizeBelow bound => return reads fun c => c.size < bound
  | .countBelow bound => do
    let counter ← modifyGet Objects.newCounter
    return fun scope =>
      let (asked, state) := scope.state.count counter
      ⟨(asked : Int) < bound.toInt, state, []⟩
  | .noted label test => do
    let condition ← test.build
    return fun scope =>
      let answer := condition scope
      { answer with remarks := .note label :: answer.remarks }
  | .not test => do
    let condition ← test.build
    return fun scope =>
      let answer := condition scope
      { answer with value := !answer.value }
  | .all tests => return inOrder true (← Test.buildAll tests)
  | .any tests => return inOrder false (← Test.buildAll tests)

def Test.buildAll : List Test → Build (List (Condition Objects))
  | [] => return []
  | test :: rest => return (← test.build) :: (← Test.buildAll rest)

end

def Selection.build (selection : Selection) : Build (Scope Objects → Answer Objects Key) := do
  let reads (f : Context → Key) : Scope Objects → Answer Objects Key :=
    fun scope => .of scope (f scope.context)
  match selection with
  | .constant value => return reads fun _ => .text value
  | .text key fallback => return reads fun c => .text ((c.getText? key).getD fallback)
  | .int key => return reads fun c => .int ((c.getInt? key).getD 0)
  | .optionalInt key => return reads fun c => .ofOption .int (c.getInt? key)
  | .bool key => return reads fun c => .bool ((c.getBool? key).getD false)
  | .display key => return reads fun c => .ofOption .text ((c.get? key).map Value.displayText)
  | .tick => do
    let counter ← modifyGet Objects.newCounter
    return fun scope =>
      let (asked, state) := scope.state.count counter
      ⟨.int (Int64.ofNat asked), state, []⟩

def numeral (n : Nat) : String := String.ofList (Digits.ofNat n)

def policyLabel : Policy → String
  | .failFast => "fail_fast"
  | .keepGoing => "continue"

def CallMode.label : CallMode → String
  | .execute => "exec"
  | .run => "run"

def CallMode.request (mode : CallMode) (container : ContainerId) : Call :=
  match mode with
  | .execute => .execute container
  | .run => .run container

/-- Goes on with the container of that name, if there is one. -/
def withContainer {κ : Type} (registry name : String)
    (next : ContainerId → Program Objects (Task Objects) κ Unit) :
    Program Objects (Task Objects) κ Unit :=
  .find registry name fun
    | some container => next container
    | none => pure ()

/-- Puts a container to work. The failure, if it is not caught, is the leaf's own. -/
def callContainer (mode : CallMode) (registry name : String) (caught : Bool) :
    Leaf Objects TaskResult :=
  .find registry name fun
    | none => return .ok ()
    | some container => .call (mode.request container) fun
      | .ok summary => do
        Program.note (name ++ " " ++ mode.label ++ " executed=" ++ numeral summary.executed
          ++ " failures=" ++ numeral summary.failures.length)
        return .ok ()
      | .error failure =>
        if caught then do
          Program.note (name ++ " caught: " ++ failure.message)
          return .ok ()
        else return .error (.execution failure)

/-- Counts an execution, and fails if its number is listed. -/
def flaky (name : String) (failing : List Int) (counter : Nat) : Leaf Objects TaskResult := do
  let number := (← Program.modifyState (·.count counter)) + 1
  Program.note (name ++ "#" ++ numeral number)
  if failing.contains (number : Int) then
    return .error (.plain (name ++ " failed on run " ++ numeral number))
  else return .ok ()

def showValue (key : String) : Option Value → String
  | some value => key ++ "=" ++ value.displayText
  | none => key ++ " missing"

/-- What stands for a task that is not: it does nothing. -/
def idle : Task Objects := .leaf Task.defaultName (pure (.ok ()))

/-- The object that is under the name at this time. -/
def keptObject (name : String) : Build (Option Reference) := return (← get).kept.get? name

mutual

def Effect.program {κ : Type} :
    Effect → Program Objects (Task Objects) κ Unit
  | .set key value => Program.modifyContext (·.insert key value)
  | .increment key amount => Program.modifyContext (·.increment key amount)
  | .erase key => Program.modifyContext (·.erase key)
  | .copy source target => Program.modifyContext fun c =>
      match c.get? source with
      | some value => c.insert target value
      | none => c
  | .fold key => Program.modifyContext fun c => c.insert key c
  | .note label => Program.note label
  | .show key => do
    let value? := (← Program.scope).context.get? key
    Program.note (showValue key value?)
  | .create registry registration =>
    .create registry registration fun container => .inspect container .policy fun policy =>
      Program.note (registration.name ++ " " ++ policyLabel policy)
  | .add registry name plans =>
    withContainer registry name fun container => do
      let queue ← Program.modifyState (Plan.buildQueue plans)
      .addQueue container queue <| .inspect container .queueCount fun count =>
        Program.note (name ++ " has " ++ numeral count)
  | .locked registry name =>
    withContainer registry name fun container => .inspect container .locked fun locked =>
      Program.note (name ++ " locked=" ++ if locked then "true" else "false")

def Effect.programs {κ : Type} :
    List Effect → Program Objects (Task Objects) κ Unit
  | [] => pure ()
  | effect :: rest => do
    effect.program
    Effect.programs rest

def Action.program : Action → Leaf Objects TaskResult
  | .effect effect => do
    effect.program
    return .ok ()
  | .fail error => return .error error
  | .call mode registry name caught => callContainer mode registry name caught

/-- The actions in order, up to the first that fails. -/
def Action.programs : List Action → Leaf Objects TaskResult
  | [] => return .ok ()
  | action :: rest => do
    match ← action.program with
    | .ok () => Action.programs rest
    | .error error => return .error error

def Plan.build : Plan → Build (Task Objects)
  | .counter name key => return Task.counter name key
  | .step name actions => return .leaf name (Action.programs actions)
  | .flaky name failing => return .leaf name (flaky name failing (← modifyGet Objects.newCounter))
  | .branch test thenPlans elsePlans template => do
    let condition ← test.build
    if template then
      return .conditional condition (.template (← Plan.buildQueue thenPlans))
        (.template (← Plan.buildQueue elsePlans))
    else
      return .conditional condition (.builder (Plan.buildQueue thenPlans))
        (.builder (Plan.buildQueue elsePlans))
  | .loop test limit body template => do
    let condition ← test.build
    if template then
      return .loop condition limit (.template (← Plan.buildQueue body))
    else return .loop condition limit (.builder (Plan.buildQueue body))
  | .switch selection registrations => do
    let switch := Switch.new (← selection.build)
    return .switch (← Plan.buildCases switch registrations)
  | .aspect plan before after => do
    let task ← plan.build
    return .aspect task (← Plan.buildGates before).getLast?
      (Plan.closings after).getLast?
  | .kept name => return ((← keptObject name).map .reference).getD idle

/-- The hooks before a task: each does its effects and then asks its test. -/
def Plan.buildGates :
    List (List Effect × Test) → Build (List (Hook Objects Bool))
  | [] => return []
  | (effects, test) :: rest => do
    let condition ← test.build
    let gate : Hook Objects Bool := do
      Effect.programs effects
      Program.ask condition
    return gate :: (← Plan.buildGates rest)

def Plan.closings : List (List Effect) → List (Hook Objects Unit)
  | [] => []
  | effects :: rest => Effect.programs effects :: Plan.closings rest

def Plan.buildTasks : List Plan → Build (List Object)
  | [] => return []
  | plan :: rest => do
    let object ← newObject (← plan.build)
    return object :: (← Plan.buildTasks rest)

/-- A queue of new tasks. -/
def Plan.buildQueue (plans : List Plan) : Build (Queue (Task Objects)) :=
  return ⟨← Plan.buildTasks plans⟩

def Plan.buildCases (switch : Switch Objects (Task Objects)) :
    List CaseRegistration → Build (Switch Objects (Task Objects))
  | [] => return switch
  | registration :: rest => do
    Plan.buildCases (← registration.build switch) rest

def CaseRegistration.build (switch : Switch Objects (Task Objects)) :
    CaseRegistration → Build (Switch Objects (Task Objects))
  | .case key plans => return switch.withCase key ⟨← Plan.buildTasks plans⟩
  | .cases cases => return switch.withCases (← Plan.buildKeyed cases)
  | .fallback plans => return switch.withDefault ⟨← Plan.buildTasks plans⟩

def Plan.buildKeyed :
    List (Key × List Plan) → Build (List (Key × Queue (Task Objects)))
  | [] => return []
  | (key, plans) :: rest => do
    let queue : Queue (Task Objects) := ⟨← Plan.buildTasks plans⟩
    return (key, queue) :: (← Plan.buildKeyed rest)

end

end Scenario
end Workflow
