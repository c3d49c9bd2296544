import Workflow.Queue
import Workflow.Scope

/-! # Workflow.Program

What a leaf or a hook does, as a tree of requests to the engine. A program may read and write its
scope, say things, and make use of containers.
-/

namespace Workflow

/-- What is asked for when a container is created. -/
structure Registration where
  name : String
  context : Option Context
  policy : Policy

/-- What can be seen of a container from outside. -/
structure ContainerView where
  name : String
  policy : Policy
  queueCount : Nat
  /-- The lock of its registered context is held. -/
  locked : Bool

namespace Query

abbrev Answer : Query → Type
  | name => String
  | policy => Policy
  | queueCount => Nat
  | locked => Bool

def answer (view : ContainerView) : (query : Query) → query.Answer
  | name => view.name
  | policy => view.policy
  | queueCount => view.queueCount
  | locked => view.locked

end Query

/-- A request to run a container, and wait for it: on the context at hand, or on its own. -/
inductive Call where
  | execute (container : ContainerId)
  | run (container : ContainerId)

/-- What a leaf or a hook does, request by request. `κ` is the type of the requests that run a
container: `Call` for a leaf and `Empty` for a hook, which cannot wait for a run. -/
inductive Program (σ : Domain) (τ κ ρ : Type) where
  | done (result : ρ)
  | read (next : Scope σ → Program σ τ κ ρ)
  | write (scope : Scope σ) (next : Program σ τ κ ρ)
  | remark (remark : Remark) (next : Program σ τ κ ρ)
  | find (registry : String) (name : String) (next : Option ContainerId → Program σ τ κ ρ)
  | create (registry : String) (registration : Registration)
      (next : ContainerId → Program σ τ κ ρ)
  | addQueue (container : ContainerId) (queue : Queue τ) (next : Program σ τ κ ρ)
  | inspect (container : ContainerId) (query : Query) (next : query.Answer → Program σ τ κ ρ)
  | call (request : κ) (next : Except ExecutionError Summary → Program σ τ κ ρ)

namespace Program

variable {σ : Domain} {τ κ α β : Type}

def bind (p : Program σ τ κ α) (f : α → Program σ τ κ β) : Program σ τ κ β :=
  match p with
  | done result => f result
  | read next => read fun scope => (next scope).bind f
  | write scope next => write scope (next.bind f)
  | remark r next => remark r (next.bind f)
  | find registry name next => find registry name fun id => (next id).bind f
  | create registry registration next => create registry registration fun id => (next id).bind f
  | addQueue container queue next => addQueue container queue (next.bind f)
  | inspect container query next => inspect container query fun answer => (next answer).bind f
  | call request next => call request fun result => (next result).bind f

instance : Monad (Program σ τ κ) where
  pure := done
  bind := bind

def scope : Program σ τ κ (Scope σ) := read done

def modifyContext (f : Context → Context) : Program σ τ κ Unit :=
  read fun scope => write { scope with context := f scope.context } (done ())

/-- Changes the state and answers with what the change yields. -/
def modifyState (f : σ → α × σ) : Program σ τ κ α :=
  read fun scope =>
    let (result, state) := f scope.state
    write { scope with state } (done result)

def remarks : List Remark → Program σ τ κ Unit
  | [] => done ()
  | r :: rest => remark r (remarks rest)

/-- Asks about the scope and says what the answer has to remark. -/
def ask (question : Scope σ → Answer σ α) : Program σ τ κ α :=
  read fun scope =>
    let answer := question scope
    write { scope with state := answer.state } ((remarks answer.remarks).bind fun _ =>
      done answer.value)

def say (r : Remark) : Program σ τ κ Unit := remark r (done ())

def note (text : String) : Program σ τ κ Unit := say (.note text)

end Program

end Workflow
