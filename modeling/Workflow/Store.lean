import Workflow.Task

/-! # Workflow.Store

The containers, the contexts registered with them, the registries that know both by name, and the
task objects that can be referred to. A store only grows: a container, once created, keeps its name,
its policy and its context, a registry answers a name with the same container for ever, and an
object, once kept, stays the task that it is.

An identity that the store does not hold stands for a nameless container without queues, and
writing to it does nothing.
-/

namespace Workflow

/-- A named list of queues, drained in the order in which they were added. -/
structure Container (σ : Domain) where
  name : String
  policy : Policy
  queues : List (Queue (Task σ))
  context : ContextId

/-- A context that outlives a run. A run in progress holds its lock and has the content; what stands
here meanwhile is the content from before. -/
structure SharedContext where
  content : Context
  locked : Bool

instance : Inhabited SharedContext := ⟨⟨Context.empty, false⟩⟩

structure Registry where
  containers : Table ContainerId
  contexts : Table ContextId

namespace Registry

def empty : Registry := ⟨Table.empty, Table.empty⟩

instance : Inhabited Registry := ⟨empty⟩

def contains (r : Registry) (name : String) : Bool := r.containers.contains name

def find? (r : Registry) (name : String) : Option ContainerId := r.containers.get? name

def context? (r : Registry) (name : String) : Option ContextId := r.contexts.get? name

/-- In increasing order. -/
def names (r : Registry) : List String := r.containers.keys

def size (r : Registry) : Nat := r.containers.size

def isEmpty (r : Registry) : Bool := r.containers.isEmpty

end Registry

/-- The registries are told apart by names; one that was never written to is empty. -/
structure Store (σ : Domain) where
  containers : List (Container σ)
  contexts : List SharedContext
  registries : Table Registry
  objects : List (Handle (Task σ))

namespace Store

variable {σ : Domain}

def empty : Store σ := ⟨[], [], Table.empty, []⟩

instance : Inhabited (Store σ) := ⟨empty⟩

def container (s : Store σ) (id : ContainerId) : Container σ :=
  s.containers.getD id.index ⟨"", .failFast, [], ⟨s.contexts.length⟩⟩

def sharedContext (s : Store σ) (id : ContextId) : SharedContext :=
  s.contexts.getD id.index default

/-- The context registered with a container. -/
def contextOf (s : Store σ) (id : ContainerId) : SharedContext :=
  s.sharedContext (s.container id).context

def registry (s : Store σ) (name : String) : Registry := (s.registries.get? name).getD default

def find? (s : Store σ) (registry name : String) : Option ContainerId :=
  (s.registry registry).find? name

/-- The task of the object with that identity. -/
def object? (s : Store σ) (id : TaskId) : Option (Task σ) :=
  (s.objects.find? (·.id == id)).map Handle.task

/-- Keeps an object, unless it is kept already. -/
def keep (s : Store σ) (object : Handle (Task σ)) : Store σ :=
  if (s.object? object.id).isSome then s else { s with objects := s.objects ++ [object] }

def modifyContainer (s : Store σ) (id : ContainerId) (f : Container σ → Container σ) : Store σ :=
  { s with containers := s.containers.modify id.index f }

/-- The container is there. -/
def Has (s : Store σ) (id : ContainerId) : Prop := id.index < s.containers.length

instance (s : Store σ) (id : ContainerId) : Decidable (s.Has id) := Nat.decLt _ _

@[simp] theorem has_modifyContainer {s : Store σ} {id c : ContainerId}
    {f : Container σ → Container σ} : (s.modifyContainer id f).Has c ↔ s.Has c := by
  simp [Has, modifyContainer]

theorem container_modifyContainer_self {s : Store σ} {id : ContainerId} (h : s.Has id)
    (f : Container σ → Container σ) :
    (s.modifyContainer id f).container id = f (s.container id) := by
  have hlt : id.index < s.containers.length := h
  simp [container, modifyContainer, hlt]

theorem index_ne {id c : ContainerId} (h : id ≠ c) : id.index ≠ c.index := by
  intro hindex
  exact h (by cases id; cases c; cases hindex; rfl)

theorem container_modifyContainer_ne {s : Store σ} {id c : ContainerId} (h : id ≠ c)
    (f : Container σ → Container σ) : (s.modifyContainer id f).container c = s.container c := by
  simp [container, modifyContainer, List.getElem?_modify_ne _ _ (index_ne h)]

theorem modifyContainer_twice (s : Store σ) (id : ContainerId) (f g : Container σ → Container σ) :
    (s.modifyContainer id f).modifyContainer id g = s.modifyContainer id (fun c => g (f c)) := by
  simp only [modifyContainer, Store.mk.injEq, and_self, and_true]
  refine List.ext_getElem? fun i => ?_
  by_cases h : id.index = i <;> simp [h, Function.comp_def]

theorem modifyContainer_comm (s : Store σ) {id c : ContainerId} (h : id ≠ c)
    (f g : Container σ → Container σ) :
    (s.modifyContainer id f).modifyContainer c g =
      (s.modifyContainer c g).modifyContainer id f := by
  simp only [modifyContainer, Store.mk.injEq, and_self, and_true]
  refine List.ext_getElem? fun i => ?_
  have hne := index_ne h
  by_cases hi : id.index = i
  · have hc : c.index ≠ i := by omega
    simp [hi, hc]
  · simp [List.getElem?_modify, hi]

theorem modifyContainer_eq_self {s : Store σ} {id : ContainerId} (hid : s.Has id)
    {f : Container σ → Container σ} (h : f (s.container id) = s.container id) :
    s.modifyContainer id f = s := by
  have hlt : id.index < s.containers.length := hid
  simp only [modifyContainer]
  refine congrArg (Store.mk · _ _ _) (List.ext_getElem? fun i => ?_)
  by_cases hi : id.index = i
  · subst hi
    simp only [container, List.getD_eq_getElem?_getD, List.getElem?_eq_getElem hlt,
      Option.getD_some] at h
    simp [List.getElem?_eq_getElem hlt, h]
  · simp [hi]

def modifyContext (s : Store σ) (id : ContextId) (f : SharedContext → SharedContext) : Store σ :=
  { s with contexts := s.contexts.modify id.index f }

@[simp] theorem has_modifyContext {s : Store σ} {id : ContextId} {c : ContainerId}
    {f : SharedContext → SharedContext} : (s.modifyContext id f).Has c ↔ s.Has c := Iff.rfl

@[simp] theorem container_modifyContext (s : Store σ) (id : ContextId) (c : ContainerId)
    (f : SharedContext → SharedContext) : (s.modifyContext id f).container c = s.container c := by
  simp [container, modifyContext]

/-- A new container with a context of its own, known to the registry by its name. -/
def register (s : Store σ) (registry : String) (r : Registration) : ContainerId × Store σ :=
  let id : ContainerId := ⟨s.containers.length⟩
  let context : ContextId := ⟨s.contexts.length⟩
  let known := s.registry registry
  (id,
    { s with
      containers := s.containers ++ [⟨r.name, r.policy, [], context⟩]
      contexts := s.contexts ++ [⟨r.context.getD Context.empty, false⟩]
      registries := s.registries.insert registry
        ⟨known.containers.insert r.name id, known.contexts.insert r.name context⟩ })

theorem Has.register {s : Store σ} {id : ContainerId} (h : s.Has id) (registry : String)
    (r : Registration) : (s.register registry r).2.Has id := by
  have : id.index < s.containers.length := h
  simp only [Store.register, Has, List.length_append, List.length_singleton]
  omega

theorem container_register {s : Store σ} {id : ContainerId} (h : s.Has id) (registry : String)
    (r : Registration) : (s.register registry r).2.container id = s.container id := by
  have hlt : id.index < s.containers.length := h
  simp [container, register, List.getElem?_append_left hlt, hlt]

/-- A container that is there and the new one do not meet. -/
theorem register_modifyContainer {s : Store σ} {id : ContainerId} (h : s.Has id)
    (registry : String) (r : Registration) (f : Container σ → Container σ) :
    (s.modifyContainer id f).register registry r =
      ((s.register registry r).1, (s.register registry r).2.modifyContainer id f) := by
  have hlt : id.index < s.containers.length := h
  simp only [register, modifyContainer, List.length_modify, Prod.mk.injEq, true_and]
  refine congrArg (Store.mk · _ _ _) (List.ext_getElem? fun i => ?_)
  by_cases hi : i < s.containers.length
  · simp [List.getElem?_modify, hi, List.getElem?_append_left, List.getElem_modify]
  · have hne : id.index ≠ i := by omega
    simp [hne, List.getElem?_append_right, Nat.le_of_not_lt hi]

/-- Puts a queue behind those that wait. -/
def addQueue (s : Store σ) (id : ContainerId) (queue : Queue (Task σ)) : Store σ :=
  s.modifyContainer id fun c => { c with queues := c.queues ++ [queue] }

/-- Takes the first queue out. -/
def takeQueue? (s : Store σ) (id : ContainerId) : Option (Queue (Task σ) × Store σ) :=
  match (s.container id).queues with
  | [] => none
  | queue :: rest => some (queue, s.modifyContainer id fun c => { c with queues := rest })

/-- Puts a queue before those that wait. An empty queue does not wait. -/
def returnQueue (s : Store σ) (id : ContainerId) (queue : Queue (Task σ)) : Store σ :=
  if queue.isEmpty then s
  else s.modifyContainer id fun c => { c with queues := queue :: c.queues }

theorem returnQueue_nil (s : Store σ) (id : ContainerId) : s.returnQueue id ⟨[]⟩ = s := rfl

theorem returnQueue_cons (s : Store σ) (id : ContainerId) (handle : Handle (Task σ))
    (rest : List (Handle (Task σ))) : s.returnQueue id ⟨handle :: rest⟩ =
      s.modifyContainer id fun c => { c with queues := ⟨handle :: rest⟩ :: c.queues } := rfl

/-- Takes the lock of a container's context, unless a run in progress holds it. -/
def lock? (s : Store σ) (id : ContainerId) : Option (Context × Store σ) :=
  let shared := s.contextOf id
  if shared.locked then none
  else some (shared.content,
    s.modifyContext (s.container id).context fun shared => { shared with locked := true })

/-- Gives the lock back together with the new content. -/
def unlock (s : Store σ) (id : ContainerId) (content : Context) : Store σ :=
  s.modifyContext (s.container id).context fun _ => ⟨content, false⟩

def view (s : Store σ) (id : ContainerId) : ContainerView :=
  let c := s.container id
  ⟨c.name, c.policy, c.queues.length, (s.contextOf id).locked⟩

end Store
end Workflow
