import Workflow.Proofs.Container.Serial

/-! # Workflow.Proofs.Container.Grouping

How the tasks of a container are grouped into queues does not matter to a run: it is a pass over the
tasks, and the pass does not depend on where one queue ends and the next begins.
-/

namespace Workflow

variable {σ : Domain} {id : ContainerId}

namespace Machine

theorem withQueues_handles {m : Machine σ} (hid : m.store.Has id) (queues : List (Queue (Task σ))) :
    ((m.withQueues id queues).store.container id).handles = queues.flatMap Queue.handles := by
  simp only [withQueues, Container.handles, Store.container_modifyContainer_self hid]

theorem withQueues_policy {m : Machine σ} (hid : m.store.Has id) (queues : List (Queue (Task σ))) :
    ((m.withQueues id queues).store.container id).policy = (m.store.container id).policy := by
  simp only [withQueues, Store.container_modifyContainer_self hid]

theorem withQueues_name {m : Machine σ} (hid : m.store.Has id) (queues : List (Queue (Task σ))) :
    ((m.withQueues id queues).store.container id).name = (m.store.container id).name := by
  simp only [withQueues, Store.container_modifyContainer_self hid]

theorem reframe_eq_withQueues {m : Machine σ} (hid : m.store.Has id)
    (queues : List (Queue (Task σ))) :
    m.reframe id (m.store.container id).policy queues m.log = m.withQueues id queues := by
  rw [← reframe_withQueues m (m.store.container id).queues queues, reframe_self hid]

end Machine

/-- Two containers that hold the same tasks in the same order, however they are cut into queues, run
to the same result and leave everything in the same state, the log included; only the cuts between
the queues that are left may differ. The events show that the tasks neither run the container nor
ask for the number of its queues. -/
theorem grouping_is_immaterial {m m' : Machine σ} {queues₁ queues₂ : List (Queue (Task σ))}
    {r : RunResult} {name : String} {events : List Event} (hid : m.store.Has id)
    (hsame : queues₁.flatMap Queue.handles = queues₂.flatMap Queue.handles)
    (h : Ends (fun fuel => id.execute fuel) (m.withQueues id queues₁) r m')
    (hlog : m'.log = m.log ++ .runStarted id name :: events) (hunseen : Unseen id events) :
    ∃ queues, Ends (fun fuel => id.execute fuel) (m.withQueues id queues₂) r
        (m'.withQueues id queues) ∧
      queues.flatMap Queue.handles = (m'.store.container id).handles := by
  obtain ⟨fuel, h⟩ := h
  have hid₁ : (m.withQueues id queues₁).store.Has id := Store.has_modifyContainer.2 hid
  have hpolicy := Machine.withQueues_policy hid queues₁
  have hname := Machine.withQueues_name hid queues₁
  obtain ⟨m₁, l, rfl, hg, rfl, -, hserial⟩ :=
    exists_pass (· = (m.store.container id).policy) (fun t => t.execute_framed id fuel) hid₁
      (fun p hp => .inl (hp.trans hpolicy.symm)) h hlog hunseen
  rw [hpolicy, Machine.withQueues_handles hid, Machine.bare_withQueues] at hserial
  -- The same pass is made over the other queues.
  have hid₂ : (m.bare id).store.Has id := Store.has_modifyContainer.2 hid
  obtain ⟨queues, hleft, -, hends⟩ := hserial.executes rfl hid₂ hsame.symm m.log
  refine ⟨queues, ?_, hleft⟩
  have hlog₁ : m₁.log = m.log ++ .runStarted id (m.store.container id).name :: l := by
    rw [hg.log, Array.appendList_cons, ← hname]
    rfl
  have hpolicy₁ : (m₁.store.container id).policy = (m.store.container id).policy :=
    (hg.store.policy hid₁).trans hpolicy
  have hname₂ : ((m.bare id).store.container id).name = (m.store.container id).name :=
    Machine.reframe_name hid id
  rw [Machine.bare_reframe, Machine.bare_reframe, Machine.reframe_eq_withQueues hid, hname₂,
    ← Log.append_append, ← hlog₁, ← hpolicy₁] at hends
  have hid' : (m₁.concluded id (m.store.container id).name r).store.Has id := hg.store.has hid₁
  rw [hname, ← Machine.reframe_eq_withQueues hid']
  exact hends

def groupedTasks : List (Handle (Task Unit)) :=
  [⟨⟨0⟩, spawning⟩, ⟨⟨1⟩, breaking⟩, ⟨⟨2⟩, spawning⟩]

/-- The second task fails. It is the last of its queue under one grouping and the first under the
other. -/
theorem yard_grouping_is_immaterial :
    let failure := ExecutionError.taskFailed "breaking" (.plain "broken")
    let events := spawningEvents ⟨0⟩ ++ breakingEvents ⟨1⟩
    let m := yard .failFast [⟨groupedTasks.drop 2⟩, ⟨[⟨⟨7⟩, breaking⟩]⟩]
      (.runStarted ⟨0⟩ "yard" :: events)
    Unseen ⟨0⟩ events ∧
      Ends (fun fuel => ContainerId.execute fuel ⟨0⟩)
        (yard .failFast [⟨[]⟩, ⟨groupedTasks.take 2⟩, ⟨groupedTasks.drop 2⟩] [])
        (.error failure) m ∧
      ∃ queues, Ends (fun fuel => ContainerId.execute fuel ⟨0⟩)
          (yard .failFast [⟨groupedTasks.take 1⟩, ⟨groupedTasks.drop 1⟩] []) (.error failure)
          (m.withQueues ⟨0⟩ queues) ∧
        queues.flatMap Queue.handles = groupedTasks.drop 2 ++ [⟨⟨7⟩, breaking⟩] := by
  intro failure events m
  have hunseen : Unseen ⟨0⟩ events :=
    ⟨by simp [events, spawningEvents, breakingEvents],
      by simp [events, spawningEvents, breakingEvents]⟩
  have hends : Ends (fun fuel => ContainerId.execute fuel ⟨0⟩)
      ((yard .failFast [] []).withQueues ⟨0⟩
        [⟨[]⟩, ⟨groupedTasks.take 2⟩, ⟨groupedTasks.drop 2⟩]) (.error failure) m := ⟨5, rfl⟩
  have hid : (yard .failFast [] []).store.Has ⟨0⟩ := by decide
  have hsame : [⟨[]⟩, ⟨groupedTasks.take 2⟩, ⟨groupedTasks.drop 2⟩].flatMap Queue.handles =
      [⟨groupedTasks.take 1⟩, ⟨groupedTasks.drop 1⟩].flatMap Queue.handles := rfl
  obtain ⟨queues, hother, hleft⟩ := grouping_is_immaterial hid hsame hends rfl hunseen
  exact ⟨hunseen, hends, queues, hother, hleft⟩

end Workflow
