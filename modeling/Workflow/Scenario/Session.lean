import Workflow.Queue.Listing
import Workflow.Scenario.Build
import Workflow.Scenario.Step

/-! # Workflow.Scenario.Session

Carrying out the steps of a session one after the other. A step answers with a reply and with the
log of what happened during it. A step that would wait for ever ends the session.
-/

namespace Workflow
namespace Scenario

structure Session where
  contexts : Table Context
  queues : Table (Queue (Task Objects))
  containers : Table ContainerId
  objects : Objects
  store : Store Objects

/-- What a step comes to. -/
inductive Turn where
  | answered (reply : Reply) (log : Log) (session : Session)
  | ended (reason : Refusal) (log : Log)

/-- Room for any run that ends within the life of a machine. -/
def fuel : Nat := Nat.pow 2 62

namespace Session

def start : Session :=
  ⟨Table.empty, Table.empty, Table.empty, Objects.empty, Store.empty⟩

def context (s : Session) (slot : String) : Context := (s.contexts.get? slot).getD Context.empty

def queue (s : Session) (slot : String) : Queue (Task Objects) :=
  (s.queues.get? slot).getD Queue.empty

def setContext (s : Session) (slot : String) (context : Context) : Session :=
  { s with contexts := s.contexts.insert slot context }

def setQueue (s : Session) (slot : String) (queue : Queue (Task Objects)) : Session :=
  { s with queues := s.queues.insert slot queue }

/-- Keeps an object under a name. -/
def keep (s : Session) (name : String) (object : Object) : Session :=
  { s with
    objects := s.objects.keep name ⟨object.id, object.task.name⟩
    store := s.store.keep object }

def kept? (s : Session) (name : String) : Option Reference := s.objects.kept.get? name

def keepContainer (s : Session) (handle : Option String) (id : ContainerId) : Session :=
  match handle with
  | some handle => { s with containers := s.containers.insert handle id }
  | none => s

/-- A reply to a step during which nothing happens. -/
def quiet (reply : Reply) (s : Session) : Turn := .answered reply #[] s

def refuse (reason : Refusal) (s : Session) : Turn := s.quiet (.refused reason)

/-- Makes something from plans. -/
def build {α : Type} (s : Session) (make : Build α) : α × Session :=
  let (result, objects) := make.run s.objects
  (result, { s with objects })

/-- Lets the engine work on a context. -/
def engage {α : Type} (s : Session) (context : Context) (work : Exec Objects α)
    (answer : α → Context → Session → Reply × Session) : Turn :=
  match work ⟨⟨context, s.objects⟩, s.store, #[]⟩ with
  | .finished result m =>
    let (reply, s) := answer result m.context { s with objects := m.state, store := m.store }
    .answered reply m.log s
  | .blocked _ m => .ended .deadlock m.log
  | .outOfFuel => .ended .outOfFuel #[]

/-- Lets the engine work on the context of a slot. -/
def engageSlot {α : Type} (s : Session) (slot : String) (work : Exec Objects α)
    (answer : α → Context → Session → Reply × Session) : Turn :=
  s.engage (s.context slot) work fun result context s =>
    answer result context (s.setContext slot context)

/-- The task as an object. A kept task is the object that it is, any other is a new one. -/
def object (plan : Plan) : Build Object := do
  match ← plan.build with
  | .reference r => return ⟨r.id, .reference r⟩
  | task => newObject task

def enter (entry : Entry) (plan : Plan) : Build Object :=
  match entry with
  | .wrapped => do newObject (← plan.build)
  | .shared => object plan

def optionalValue (value : Option Value) : Reply := .optional (value.map .value)

def stepContext (s : Session) (slot : String) : ContextStep → Turn
  | .make source =>
    let made (c : Context) := (s.setContext slot c).quiet (.optional (some (.entries c)))
    match source with
    | .empty => made Context.empty
    | .pairs pairs => made (Context.ofList pairs)
    | .json text =>
      match Json.ofText? text with
      | none => s.refuse .notJson
      | some json =>
        match Context.ofJson? json with
        | some c => made c
        | none => s.quiet (.optional none)
  | .insert key value =>
    let (old, c) := (s.context slot).exchange key value
    (s.setContext slot c).quiet (optionalValue old)
  | .get key => s.quiet (optionalValue ((s.context slot).get? key))
  | .examine key => s.quiet (.optional (((s.context slot).get? key).map .examined))
  | .getInt key => s.quiet (.optional (((s.context slot).getInt? key).map .integer))
  | .getText key => s.quiet (.optional (((s.context slot).getText? key).map .text))
  | .getBool key => s.quiet (.optional (((s.context slot).getBool? key).map .flag))
  | .contains key => s.quiet (.flag ((s.context slot).contains key))
  | .erase key =>
    let (old, c) := (s.context slot).takeOut key
    (s.setContext slot c).quiet (optionalValue old)
  | .size =>
    let c := s.context slot
    s.quiet (.extent c.size c.isEmpty)
  | .keys => s.quiet (.texts (s.context slot).keys)
  | .increment key amount =>
    let c := s.context slot
    let after := c.increment key amount
    (s.setContext slot after).quiet (.increased (c.incremented key amount) (after.get? key))
  | .jsonText => s.quiet (.text (s.context slot).jsonText)
  | .entries => s.quiet (.entries (s.context slot))
  | .asValue => s.quiet (.examined (toValue (s.context slot)))
  | .same other => s.quiet (.flag ((s.context slot).same (s.context other)))
  | .copy target => (s.setContext target (s.context slot)).quiet .nothing
  | .perform plan =>
    let (object, s) := s.build (object plan)
    s.engageSlot slot (object.task.execute fuel) fun result context s =>
      (.performed result context, s)

/-- What can be told of a task without executing it. -/
def describe (task : Task Objects) : Reply :=
  match task with
  | .switch switch => .description task.name (some switch.caseCount) none
  | .loop _ limit _ => .description task.name none (some limit)
  | _ => .description task.name none none

def stepTask (s : Session) : TaskStep → Turn
  | .keep name plan =>
    let (object, s) := s.build (object plan)
    (s.keep name object).quiet (.text object.task.name)
  | .same a b =>
    match s.kept? a, s.kept? b with
    | some x, some y => s.quiet (.flag (x.id == y.id))
    | none, _ => s.refuse (.unknown a)
    | _, none => s.refuse (.unknown b)
  | .describe plan =>
    let (task, s) := s.build plan.build
    s.quiet (describe task)

/-- Drains the queue of a slot on the context of another. -/
def drainSlot (s : Session) (slot context : String) (policy : Policy)
    (answer : RunResult → String → Context → Reply) : Turn :=
  s.engageSlot context ((s.queue slot).execute fuel policy) fun drained context s =>
    (answer drained.result (Listing.inLine drained.rest.names) context,
      s.setQueue slot drained.rest)

def stepQueue (s : Session) (slot : String) : QueueStep → Turn
  | .make plans entry =>
    let (handles, s) := s.build (plans.mapM (enter entry))
    (s.setQueue slot ⟨handles⟩).quiet (.count handles.length)
  | .push plan entry =>
    let (object, s) := s.build (enter entry plan)
    let queue := (s.queue slot).push object
    (s.setQueue slot queue).quiet (.count queue.size)
  | .dequeue name =>
    match (s.queue slot).dequeue? with
    | none => s.quiet (.optional none)
    | some (object, rest) =>
      let s := s.setQueue slot rest
      let s := match name with
        | some name => s.keep name object
        | none => s
      s.quiet (.optional (some (.text object.task.name)))
  | .size =>
    let queue := s.queue slot
    s.quiet (.extent queue.size queue.isEmpty)
  | .listing indented =>
    let names := (s.queue slot).names
    s.quiet (.text (if indented then Listing.lines names else Listing.inLine names))
  | .copy target =>
    let queue := s.queue slot
    (s.setQueue target queue).quiet (.count queue.size)
  | .count context =>
    s.engageSlot context ((s.queue slot).executeAll fuel) fun (count, rest) context s =>
      (.counted count (Listing.inLine rest.names) context, s.setQueue slot rest)
  | .drain context policy => s.drainSlot slot context policy .drained

def containerReply (s : Session) (id : ContainerId) : Reply :=
  .container (s.store.view id) (s.store.contextOf id).content

def countQueues (id : ContainerId) : Exec Objects Nat := Exec.look fun s => (s.view id).queueCount

def stepContainer (s : Session) (id : ContainerId) : ContainerStep → Turn
  | .write key value =>
    let context := (s.store.container id).context
    let (old, content) := (s.store.sharedContext context).content.exchange key value
    let store := s.store.modifyContext context fun shared => { shared with content }
    { s with store }.quiet (optionalValue old)
  | .add queues =>
    let (queues, s) := s.build (queues.mapM Plan.buildQueue)
    s.engage Context.empty
      (do
        queues.forM (Exec.addQueue id)
        countQueues id)
      fun count _ s => (.count count, s)
  | .addCopy slot =>
    s.engage Context.empty
      (do
        Exec.addQueue id (s.queue slot)
        countQueues id)
      fun count _ s => (.count count, s)
  | .count => s.quiet (.count (s.store.view id).queueCount)
  | .run =>
    s.engage Context.empty (id.run fuel) fun result _ s =>
      (.ran result (s.store.view id).queueCount (s.store.contextOf id).content, s)
  | .execute slot =>
    s.engageSlot slot (id.execute fuel) fun result context s =>
      (.ran result (s.store.view id).queueCount context, s)

def stepRegistry (s : Session) (registry : String) : RegistryStep → Turn
  | .create registration handle =>
    s.engage Context.empty (Exec.create registry registration) fun id _ s =>
      (s.containerReply id, s.keepContainer handle id)
  | .find name handle =>
    match s.store.find? registry name with
    | none => s.quiet (.optional none)
    | some id => (s.keepContainer handle id).quiet (.optional (some (s.containerReply id)))
  | .same a b =>
    match s.containers.get? a, s.containers.get? b with
    | some x, some y => s.quiet (.flag (x == y))
    | none, _ => s.refuse (.unknown a)
    | _, none => s.refuse (.unknown b)
  | .sameContext handle name =>
    match s.containers.get? handle with
    | none => s.refuse (.unknown handle)
    | some id =>
      let context? := (s.store.registry registry).context? name
      s.quiet (.optional (context?.map fun c => .flag (c == (s.store.container id).context)))
  | .contains name => s.quiet (.flag ((s.store.registry registry).contains name))
  | .names => s.quiet (.texts (s.store.registry registry).names)
  | .size =>
    let r := s.store.registry registry
    s.quiet (.extent r.size r.isEmpty)
  | .context name =>
    let context? := (s.store.registry registry).context? name
    s.quiet (.optional (context?.map fun c => .entries (s.store.sharedContext c).content))
  | .container name step =>
    match s.store.find? registry name with
    | none => s.refuse .noContainer
    | some id => s.stepContainer id step

def step (s : Session) : Step → Turn
  | .context slot step => s.stepContext slot step
  | .task step => s.stepTask step
  | .queue slot step => s.stepQueue slot step
  | .registry registry step => s.stepRegistry registry step

/-- The replies to the steps, each with what happened during the step. -/
def play (s : Session) : List Step → List (Reply × Log)
  | [] => []
  | step :: rest =>
    match s.step step with
    | .answered reply log s => (reply, log) :: s.play rest
    | .ended reason log => [(.refused reason, log)]

end Session
end Scenario
end Workflow
