import Workflow.Proofs.Container.Frame
import Workflow.Proofs.Container.Settle
import Workflow.Proofs.Fuel

/-! # Workflow.Proofs.Container.Serial

A run of a container is one pass over a list of tasks: those of its queues, one queue after the
other, and behind them those of the queues that are added meanwhile. Where the queues begin and end
is of no account. `Serial` is that pass, told without queues and without a log.

* `isPass_settle`, `isPass_drainContainer`: what a run does is such a pass, if nothing but the run
  takes notice of the container.
* `Serial.settles`: what such a pass does, any run over the same tasks does.
* `exists_pass`, `Serial.executes`: the same of whole runs.
-/

namespace Workflow

variable {σ : Domain} {execute : Task σ → Exec σ TaskResult} {id : ContainerId}
  {allowed : Policy → Prop} {policy : Policy}

/-- The machine without the policy and the queues of the container, and without a log. -/
def Machine.bare (m : Machine σ) (id : ContainerId) : Machine σ := m.reframe id .failFast [] #[]

theorem Machine.bare_reframe (m : Machine σ) (queues : List (Queue (Task σ))) (log : Log) :
    (m.bare id).reframe id policy queues log = m.reframe id policy queues log := by
  simp only [bare, reframe, Store.modifyContainer_twice]

theorem Machine.bare_withQueues (m : Machine σ) (queues : List (Queue (Task σ))) :
    (m.withQueues id queues).bare id = m.bare id := by
  simp only [bare, reframe, withQueues, Store.modifyContainer_twice]

/-- Executing a task does the same under every allowed policy, whatever queues wait and whatever was
logged. It adds queues, and no task of the container is given out meanwhile. -/
structure Turn (execute : Task σ → Exec σ TaskResult) (id : ContainerId) (allowed : Policy → Prop)
    (t : Task σ) (m : Machine σ) (result : TaskResult) (m' : Machine σ) (events : List Event)
    (added : List (Queue (Task σ))) : Prop where
  acts : ∀ policy, allowed policy → (execute t).Acts id policy m result m' events added
  added_eq : addedTo id events = added.map Queue.ids
  started_eq : startedBy id events = []

theorem Turn.bare {t : Task σ} {m m' : Machine σ} {result : TaskResult} {events : List Event}
    {added : List (Queue (Task σ))} (h : Turn execute id allowed t m result m' events added) :
    Turn execute id allowed t (m.bare id) result (m'.bare id) events added := by
  refine ⟨fun policy hpolicy queues log => ?_, h.added_eq, h.started_eq⟩
  rw [Machine.bare_reframe, Machine.bare_reframe]
  exact h.acts policy hpolicy queues log

/-- The pass over `pending` from `m`: it comes to the result, leaves `left` and gets to `m'`. -/
inductive Serial (execute : Task σ → Exec σ TaskResult) (id : ContainerId)
    (allowed : Policy → Prop) : Policy → List (Handle (Task σ)) → Machine σ → RunResult →
      List (Handle (Task σ)) → Machine σ → List Event → Prop where
  | done {policy : Policy} {m : Machine σ} :
      Serial execute id allowed policy [] m (.ok .empty) [] m []
  | success {policy : Policy} {handle : Handle (Task σ)} {rest left : List (Handle (Task σ))}
      {m m₁ m' : Machine σ} {l events : List Event} {added : List (Queue (Task σ))}
      {r : RunResult} :
      Turn execute id allowed handle.task m (.ok ()) m₁ l added →
      Serial execute id allowed policy (rest ++ added.flatMap Queue.handles) m₁ r left m' events →
      Serial execute id allowed policy (handle :: rest) m (r.map (.ofSuccess ++ ·)) left m'
        (.taskStarted (some id) handle.id handle.task.name :: l ++ events)
  | stop {handle : Handle (Task σ)} {rest : List (Handle (Task σ))} {m m₁ : Machine σ}
      {l : List Event} {added : List (Queue (Task σ))} {error : TaskError} :
      Turn execute id allowed handle.task m (.error error) m₁ l added →
      Serial execute id allowed .failFast (handle :: rest) m
        (.error (error.attributed handle.task.name)) (rest ++ added.flatMap Queue.handles) m₁
        (.taskStarted (some id) handle.id handle.task.name :: l)
  | skip {handle : Handle (Task σ)} {rest left : List (Handle (Task σ))}
      {m m₁ m' : Machine σ} {l events : List Event} {added : List (Queue (Task σ))}
      {error : TaskError} {r : RunResult} :
      Turn execute id allowed handle.task m (.error error) m₁ l added →
      Serial execute id allowed .keepGoing (rest ++ added.flatMap Queue.handles) m₁ r left m'
        events →
      Serial execute id allowed .keepGoing (handle :: rest) m
        (r.map (.ofFailure (error.attributed handle.task.name) ++ ·)) left m'
        (.taskStarted (some id) handle.id handle.task.name :: l ++
          .failureNoted (error.attributed handle.task.name) :: events)

/-! ## From runs to passes -/

theorem Machine.reframe_self {m : Machine σ} (hid : m.store.Has id) :
    m.reframe id (m.store.container id).policy (m.store.container id).queues m.log = m := by
  simp only [reframe]
  rw [Store.modifyContainer_eq_self hid rfl]

/-- What a task adds is behind the queues that wait. -/
theorem Exec.Additive.handles_eq {α : Type} {x : Exec σ α} {m m' : Machine σ} {v : α}
    {events : List Event} {added : List (Queue (Task σ))}
    (h : x.Additive id m v m' events added) (hid : m.store.Has id) (hid' : m'.store.Has id)
    (hx : x m = .finished v m') :
    (m'.store.container id).handles =
      (m.store.container id).handles ++ added.flatMap Queue.handles := by
  have hacts := h.acts _ (.inl rfl) (m.store.container id).queues m.log
  rw [Machine.reframe_self hid, hx] at hacts
  have hm' : m' = _ := (Outcome.finished.inj hacts).2
  rw [hm', Machine.reframe_container_self hid']
  simp only [Container.handles, List.flatMap_append]

theorem Store.returnQueue_handles {s : Store σ} (hid : s.Has id) (queue : Queue (Task σ)) :
    ((s.returnQueue id queue).container id).handles =
      queue.handles ++ (s.container id).handles := by
  unfold Store.returnQueue
  split
  · rename_i hempty
    rw [List.isEmpty_iff.1 hempty, List.nil_append]
  · rw [Store.container_modifyContainer_self hid]
    simp only [Container.handles, List.flatMap_cons]

theorem Machine.bare_returnQueue (m : Machine σ) (queue : Queue (Task σ)) :
    { m with store := m.store.returnQueue id queue }.bare id = m.bare id := by
  simp only [bare, reframe, Store.returnQueue]
  split
  · rfl
  · rw [Store.modifyContainer_twice]

/-- Wherever `x` comes to its end and nobody else takes notice of the container, it has made a pass
over the tasks in hand and then over those that waited. -/
def IsPass (execute : Task σ → Exec σ TaskResult) (id : ContainerId) (allowed : Policy → Prop)
    (policy : Policy) (hand : List (Handle (Task σ))) (x : Exec σ RunResult) : Prop :=
  ∀ (m : Machine σ) (r : RunResult) (m' : Machine σ) (events : List Event), m.store.Has id →
    (m.store.container id).policy = policy →
    (∀ p, allowed p → Alike id p policy events) →
    x m = .finished r m' → m.Grows m' events → Unseen id events →
    Serial execute id allowed policy (hand ++ (m.store.container id).handles) (m.bare id) r
      (m'.store.container id).handles (m'.bare id) events

section Sound

variable (hexec : ∀ t, (execute t).Framed id)
include hexec

/-- What the first task in hand does to the rest of the run: it is a turn, after which `m₁` holds
the queues that it added behind those that waited. -/
theorem turn_of_execute {t : Task σ} {m m₁ m' : Machine σ} {e : Event} {result : TaskResult}
    {events l' : List Event} (hid : m.store.Has id)
    (hallowed : ∀ p, allowed p → Alike id p (m.store.container id).policy events)
    (hx : execute t (m.logged e) = .finished result m₁) (hg' : m₁.Grows m' l')
    (hg : m.Grows m' events) (hunseen : Unseen id events) :
    ∃ l added, events = e :: l ++ l' ∧ m.Grows m₁ (e :: l) ∧
      Turn execute id allowed t (m.bare id) result (m₁.bare id) l added ∧
      (m₁.store.container id).handles =
        (m.store.container id).handles ++ added.flatMap Queue.handles := by
  obtain ⟨l, hg₁, hadd⟩ := hexec t _ _ _ hx
  have hg₁' : m.Grows m₁ (e :: l) := (Machine.Grows.logged m e).trans hg₁
  obtain rfl : e :: l ++ l' = events := (hg₁'.trans hg').events_eq hg.log
  have hseen : Unseen id [e] ∧ Unseen id l := unseen_append.1 (unseen_append.1 hunseen).1
  obtain ⟨added, hadd⟩ := hadd hid hseen.2
  refine ⟨l, added, rfl, hg₁', ?_, hadd.handles_eq hid (hg₁.store.has hid) hx⟩
  have hturn : Turn execute id allowed t (m.logged e) result m₁ l added := by
    refine ⟨fun p hp => hadd.acts p ((hallowed p hp).subset ?_), hadd.added_eq, hadd.started_eq⟩
    exact List.Subset.trans (List.subset_cons_self ..) (List.subset_append_left ..)
  exact hturn.bare

theorem isPass_settle {fuel : Nat}
    (hwaiting : IsPass execute id allowed policy [] (drainContainer execute id fuel))
    (hand : List (Handle (Task σ))) :
    IsPass execute id allowed policy hand (settle execute id policy hand fuel) := by
  have hgrows : ∀ t, (execute t).Grows := fun t => (hexec t).grows
  induction hand with
  | nil =>
    rw [settle_nil]
    exact hwaiting
  | cons handle rest ih =>
    intro m r m' events hid hpolicy hallowed h hg hunseen
    obtain ⟨result, m₁, hx⟩ := execute_of_settle h
    subst hpolicy
    cases result with
    | ok =>
      rw [settle_of_success hx] at h
      obtain ⟨r', m₂, hrest, h⟩ := Exec.finished_of_bind h
      cases h
      obtain ⟨l', hg'⟩ := settle_grows hgrows _ _ _ _ _ _ hrest
      obtain ⟨l, added, rfl, hg₁, hturn, hhandles⟩ :=
        turn_of_execute hexec hid hallowed hx hg' hg hunseen
      have hserial := ih m₁ r' m' l' (hg₁.store.has hid) (hg₁.store.policy hid)
        (fun p hp => (hallowed p hp).subset (List.subset_append_right ..)) hrest hg'
        (unseen_append.1 hunseen).2
      rw [hhandles, ← List.append_assoc] at hserial
      exact .success hturn hserial
    | error error =>
      cases hp : (m.store.container id).policy with
      | failFast =>
        rw [hp, settle_of_error_failFast hx] at h
        cases h
        have hg' := Machine.returnQueue_grows m₁ id ⟨rest⟩
        obtain ⟨l, added, rfl, hg₁, hturn, hhandles⟩ :=
          turn_of_execute hexec hid hallowed hx hg' hg hunseen
        rw [Store.returnQueue_handles (hg₁.store.has hid), hhandles, ← List.append_assoc,
          Machine.bare_returnQueue, List.append_nil]
        exact .stop hturn
      | keepGoing =>
        rw [hp, settle_of_error_keepGoing hx] at h
        obtain ⟨r', m₂, hrest, h⟩ := Exec.finished_of_bind h
        cases h
        obtain ⟨l', hg'⟩ := settle_grows hgrows _ _ _ _ _ _ hrest
        have hnoted := Machine.Grows.logged m₁ (.failureNoted (error.attributed handle.task.name))
        obtain ⟨l, added, rfl, hg₁, hturn, hhandles⟩ :=
          turn_of_execute hexec hid hallowed hx (hnoted.trans hg') hg hunseen
        rw [hp] at ih hallowed
        have hallowed' : ∀ p, allowed p → Alike id p .keepGoing l' := by
          intro p hp
          have hbehind := (hallowed p hp).subset (List.subset_append_right ..)
          exact hbehind.subset (List.subset_cons_self ..)
        have hserial := ih (m₁.logged _) r' m' l' (hg₁.store.has hid)
          ((hg₁.store.policy hid).trans hp) hallowed' hrest hg'
          (unseen_append.1 (unseen_append.1 hunseen).2).2
        simp only [Machine.logged] at hserial
        rw [hhandles, ← List.append_assoc] at hserial
        exact .skip hturn hserial

/-- What a run does is one pass over its tasks. -/
theorem isPass_drainContainer (fuel : Nat) :
    IsPass execute id allowed policy [] (drainContainer execute id fuel) := by
  induction fuel with
  | zero => intro m r m' events _ _ _ h; cases h
  | succ fuel ih =>
    intro m r m' events hid hpolicy hallowed h hg hunseen
    cases hqueues : (m.store.container id).queues with
    | nil =>
      rw [drainContainer_of_nil hqueues] at h
      cases h
      obtain rfl := hg.events_eq (Machine.Grows.refl m).log
      simp only [Container.handles, hqueues]
      exact .done
    | cons queue rest =>
      rw [drainContainer_of_cons hid hqueues, hpolicy] at h
      have hg₁ : m.Grows (m.withQueues id rest) [] := Machine.withQueues_grows m id rest
      obtain ⟨l, hg'⟩ := settle_grows (fun t => (hexec t).grows) _ _ _ _ _ _ h
      obtain rfl : [] ++ l = events := (hg₁.trans hg').events_eq hg.log
      have hserial := isPass_settle hexec ih queue.handles _ r m' l (hg₁.store.has hid)
        ((hg₁.store.policy hid).trans hpolicy) hallowed h hg' hunseen
      have hhandles : (m.store.container id).handles =
          queue.handles ++ ((m.withQueues id rest).store.container id).handles := by
        simp only [Container.handles, Machine.withQueues, hqueues,
          Store.container_modifyContainer_self hid, List.flatMap_cons]
      rw [Machine.bare_withQueues, ← hhandles] at hserial
      exact hserial

end Sound

/-! ## From passes to runs -/

theorem Machine.reframe_withQueues (m : Machine σ) (queues rest : List (Queue (Task σ)))
    (log : Log) :
    (m.reframe id policy queues log).withQueues id rest = m.reframe id policy rest log := by
  simp only [reframe, withQueues, Store.modifyContainer_twice]

theorem Machine.reframe_queues {m : Machine σ} (hid : m.store.Has id)
    (queues : List (Queue (Task σ))) (log : Log) :
    ((m.reframe id policy queues log).store.container id).queues = queues := by
  rw [reframe_container_self hid]

/-- The next queue comes into hand. -/
theorem settle_reframe_cons {m : Machine σ} (hid : m.store.Has id) (queue : Queue (Task σ))
    (rest : List (Queue (Task σ))) (log : Log) (fuel : Nat) :
    settle execute id policy [] (fuel + 1) (m.reframe id policy (queue :: rest) log) =
      settle execute id policy queue.handles fuel (m.reframe id policy rest log) := by
  have hid' : (m.reframe id policy (queue :: rest) log).store.Has id :=
    Store.has_modifyContainer.2 hid
  rw [settle_nil, drainContainer_of_cons hid' (Machine.reframe_queues hid _ _),
    Machine.reframe_withQueues, Machine.reframe_container_self hid]

/-- Empty queues go by. -/
theorem settle_of_empty {m : Machine σ} (hid : m.store.Has id) {queues : List (Queue (Task σ))}
    (h : queues.flatMap Queue.handles = []) (log : Log) :
    ∃ fuel, settle execute id policy [] fuel (m.reframe id policy queues log) =
      .finished (.ok .empty) (m.reframe id policy [] log) := by
  induction queues with
  | nil => exact ⟨1, by rw [settle_nil, drainContainer_of_nil (Machine.reframe_queues hid _ _)]⟩
  | cons queue rest ih =>
    rw [List.flatMap_cons, List.append_eq_nil_iff] at h
    obtain ⟨fuel, hfuel⟩ := ih h.2
    exact ⟨fuel + 1, by rw [settle_reframe_cons hid, h.1, hfuel]⟩

/-- Where there is a task to give out, it is got into hand. -/
theorem settle_reaches (execute : Task σ → Exec σ TaskResult) (policy : Policy) {m : Machine σ}
    (hid : m.store.Has id) {handle : Handle (Task σ)}
    {rest hand : List (Handle (Task σ))} {queues : List (Queue (Task σ))}
    (h : hand ++ queues.flatMap Queue.handles = handle :: rest) :
    ∃ hand' queues' more, hand' ++ queues'.flatMap Queue.handles = rest ∧ ∀ fuel log,
      settle execute id policy hand (fuel + more) (m.reframe id policy queues log) =
        settle execute id policy (handle :: hand') fuel (m.reframe id policy queues' log) := by
  induction queues generalizing hand with
  | nil =>
    rw [List.flatMap_nil, List.append_nil] at h
    subst h
    exact ⟨rest, [], 0, by simp, fun _ _ => rfl⟩
  | cons queue queues ih =>
    cases hand with
    | nil =>
      obtain ⟨hand', queues', more, hrest, hsettle⟩ := ih h
      refine ⟨hand', queues', more + 1, hrest, fun fuel log => ?_⟩
      rw [← Nat.add_assoc, settle_reframe_cons hid, hsettle]
    | cons first hand =>
      obtain ⟨rfl, hrest⟩ := List.cons.inj h
      exact ⟨hand, queue :: queues, 0, hrest, fun _ _ => rfl⟩

/-- A turn as a step of a run. The task is got into hand and given out, and what it adds comes
behind the tasks in hand and the queues that wait. -/
theorem Turn.settles {handle : Handle (Task σ)} {rest hand : List (Handle (Task σ))}
    {m m₁ : Machine σ} {result : TaskResult} {l : List Event} {added : List (Queue (Task σ))}
    (h : Turn execute id allowed handle.task m result m₁ l added) (hpolicy : allowed policy)
    (hid : m.store.Has id) {queues : List (Queue (Task σ))}
    (hpending : hand ++ queues.flatMap Queue.handles = handle :: rest) (log : Log) :
    ∃ hand' waiting more,
      hand' ++ (waiting ++ added).flatMap Queue.handles = rest ++ added.flatMap Queue.handles ∧
      (∀ fuel, settle execute id policy hand (fuel + more) (m.reframe id policy queues log) =
        settle execute id policy (handle :: hand') fuel (m.reframe id policy waiting log)) ∧
      execute handle.task ((m.reframe id policy waiting log).logged
          (.taskStarted (some id) handle.id handle.task.name)) =
        .finished result (m₁.reframe id policy (waiting ++ added)
          (log ++ .taskStarted (some id) handle.id handle.task.name :: l)) := by
  obtain ⟨hand', waiting, more, hrest, hreach⟩ := settle_reaches execute policy hid hpending
  refine ⟨hand', waiting, more, ?_, fun fuel => hreach fuel log, ?_⟩
  · rw [List.flatMap_append, ← List.append_assoc, hrest]
  · rw [Array.appendList_cons]
    exact h.acts policy hpolicy waiting _

theorem Turn.has (hgrows : ∀ t, (execute t).Grows) {t : Task σ} {m m₁ : Machine σ}
    {result : TaskResult} {l : List Event} {added : List (Queue (Task σ))}
    (h : Turn execute id allowed t m result m₁ l added) (hpolicy : allowed policy)
    (hid : m.store.Has id) : m₁.store.Has id := by
  obtain ⟨_, hg⟩ := hgrows t _ _ _ (h.acts policy hpolicy [] #[])
  exact Store.has_modifyContainer.1 (hg.store.has (Store.has_modifyContainer.2 hid))

theorem Serial.has (hgrows : ∀ t, (execute t).Grows) (hpolicy : allowed policy)
    {pending left : List (Handle (Task σ))} {m m' : Machine σ} {r : RunResult} {events : List Event}
    (hs : Serial execute id allowed policy pending m r left m' events) (hid : m.store.Has id) :
    m'.store.Has id := by
  induction hs with
  | done => exact hid
  | success hturn _ ih => exact ih hpolicy (hturn.has hgrows hpolicy hid)
  | stop hturn => exact hturn.has hgrows hpolicy hid
  | skip hturn _ ih => exact ih hpolicy (hturn.has hgrows hpolicy hid)

/-- What is left in hand goes before the queues that wait. -/
theorem Machine.reframe_returnQueue (m : Machine σ) (hand : List (Handle (Task σ)))
    (queues : List (Queue (Task σ))) (log : Log) :
    ∃ queues', queues'.flatMap Queue.handles = hand ++ queues.flatMap Queue.handles ∧
      { m.reframe id policy queues log with
        store := (m.reframe id policy queues log).store.returnQueue id ⟨hand⟩ } =
          m.reframe id policy queues' log := by
  cases hand with
  | nil => exact ⟨queues, rfl, rfl⟩
  | cons handle rest =>
    refine ⟨⟨handle :: rest⟩ :: queues, List.flatMap_cons .., ?_⟩
    simp only [Store.returnQueue_cons, reframe, Store.modifyContainer_twice]

/-- What a pass does, any run over the same tasks does, wherever one queue ends and the next
begins. -/
theorem Serial.settles (hgrows : ∀ t, (execute t).Grows) (hpolicy : allowed policy)
    {pending left : List (Handle (Task σ))} {m m' : Machine σ} {r : RunResult} {events : List Event}
    (hs : Serial execute id allowed policy pending m r left m' events) (hid : m.store.Has id)
    {hand : List (Handle (Task σ))} {queues : List (Queue (Task σ))} (log : Log)
    (hpending : hand ++ queues.flatMap Queue.handles = pending) :
    ∃ fuel queues', queues'.flatMap Queue.handles = left ∧ (∀ s, r = .ok s → queues' = []) ∧
      settle execute id policy hand fuel (m.reframe id policy queues log) =
        .finished r (m'.reframe id policy queues' (log ++ events)) := by
  induction hs generalizing hand queues log with
  | done =>
    obtain ⟨rfl, hempty⟩ := List.append_eq_nil_iff.1 hpending
    obtain ⟨fuel, hfuel⟩ := settle_of_empty hid hempty log
    exact ⟨fuel, [], rfl, fun _ _ => rfl, by simpa using hfuel⟩
  | @success policy handle rest left m m₁ m' l events added r hturn _ ih =>
    obtain ⟨hand', waiting, more, hpending', hreach, hx⟩ := hturn.settles hpolicy hid hpending log
    obtain ⟨fuel, queues', hleft, hdone, hsettle⟩ :=
      ih hpolicy (hturn.has hgrows hpolicy hid) (log ++ _ :: l) hpending'
    refine ⟨fuel + more, queues', hleft, ?_, ?_⟩
    · intro s hr
      obtain ⟨s', hs'⟩ := ok_of_map hr
      exact hdone s' hs'
    · rw [hreach, settle_of_success hx, Exec.bind_of_finished hsettle, Log.append_append]
      rfl
  | @stop handle rest m m₁ l added error hturn =>
    obtain ⟨hand', waiting, more, hpending', hreach, hx⟩ := hturn.settles hpolicy hid hpending log
    obtain ⟨queues', hleft, hreturn⟩ :=
      Machine.reframe_returnQueue m₁ hand' (waiting ++ added) (log ++ _ :: l)
    refine ⟨0 + more, queues', hleft.trans hpending', nofun, ?_⟩
    rw [hreach, settle_of_error_failFast hx, hreturn]
  | @skip handle rest left m m₁ m' l events added error r hturn _ ih =>
    obtain ⟨hand', waiting, more, hpending', hreach, hx⟩ := hturn.settles hpolicy hid hpending log
    obtain ⟨fuel, queues', hleft, hdone, hsettle⟩ :=
      ih hpolicy (hturn.has hgrows hpolicy hid)
        ((log ++ _ :: l).push (.failureNoted (error.attributed handle.task.name))) hpending'
    refine ⟨fuel + more, queues', hleft, ?_, ?_⟩
    · intro s hr
      obtain ⟨s', hs'⟩ := ok_of_map hr
      exact hdone s' hs'
    · rw [hreach, settle_of_error_keepGoing hx]
      refine (Exec.bind_of_finished hsettle).trans ?_
      rw [← Array.appendList_cons, Log.append_append]
      rfl

/-! ## Whole runs -/

/-- A run that ends with nobody else taking notice of the container has made a pass over its
tasks. -/
theorem exists_pass (allowed : Policy → Prop) {fuel : Nat} {m m' : Machine σ} {r : RunResult}
    {e : Event} {events : List Event} (hexec : ∀ t, (execute t).Framed id) (hid : m.store.Has id)
    (hallowed : ∀ p, allowed p → Alike id p (m.store.container id).policy events)
    (h : executeContainer execute fuel id m = .finished r m')
    (hlog : m'.log = m.log ++ e :: events) (hunseen : Unseen id events) :
    ∃ m₁ l, m' = m₁.concluded id (m.store.container id).name r ∧
      (m.entered id).Grows m₁ l ∧ events = l ++ conclusion id (m.store.container id).name r ∧
      (∀ s, r = .ok s → (m₁.store.container id).queues = []) ∧
      Serial execute id allowed (m.store.container id).policy (m.store.container id).handles
        (m.bare id) r (m₁.store.container id).handles (m₁.bare id) l := by
  obtain ⟨m₁, hdrain, rfl⟩ := drained_of_executeContainer h
  obtain ⟨l, hg⟩ := drainContainer_grows (fun t => (hexec t).grows) _ _ _ _ _ hdrain
  have hentered : m.Grows (m.entered id) _ := .logged m _
  have hevents := ((hentered.trans hg).trans (m₁.concluded_grows _ r)).events_eq hlog
  obtain ⟨rfl, rfl⟩ := List.cons.inj hevents
  refine ⟨m₁, l, rfl, hg, rfl, ?_, ?_⟩
  · rintro s rfl
    exact queues_eq_nil_of_drained hdrain
  · exact isPass_drainContainer hexec fuel (m.entered id) _ _ _ hid rfl
      (fun p hp => (hallowed p hp).subset (List.subset_append_left ..)) hdrain hg
      (unseen_append.1 hunseen).1

/-- And a pass over its tasks is what any run of the container comes to. -/
theorem Serial.executes {k : Nat} {pending left : List (Handle (Task σ))} {m m' : Machine σ}
    {r : RunResult} {events : List Event}
    (hs : Serial (Task.execute k) id allowed policy pending m r left m' events)
    (hpolicy : allowed policy) (hid : m.store.Has id) {queues : List (Queue (Task σ))}
    (hpending : queues.flatMap Queue.handles = pending) (log : Log) :
    ∃ queues', queues'.flatMap Queue.handles = left ∧ (∀ s, r = .ok s → queues' = []) ∧
      Ends (fun fuel => id.execute fuel) (m.reframe id policy queues log) r
        (m'.reframe id policy queues'
          (log ++ (.runStarted id (m.store.container id).name :: events ++
            conclusion id (m.store.container id).name r))) := by
  have hentered : (m.reframe id policy queues log).entered id =
      m.reframe id policy queues (log.push (.runStarted id (m.store.container id).name)) := by
    rw [Machine.entered, Machine.reframe_name hid]
    rfl
  obtain ⟨fuel, queues', hleft, hdone, hsettle⟩ :=
    hs.settles (Task.execute_grows k) hpolicy hid
      (log.push (.runStarted id (m.store.container id).name))
      (show [] ++ queues.flatMap Queue.handles = _ from hpending)
  rw [settle_nil, ← hentered] at hsettle
  have hdrain := (drainContainer_extends id (Nat.le_max_left k fuel)
    (Nat.le_max_right k fuel)).finished hsettle
  have hrun := executeContainer_of_drained hdrain
  rw [Machine.reframe_name hid] at hrun
  refine ⟨queues', hleft, hdone, max k fuel, ?_⟩
  rw [← Log.append_append, Array.appendList_cons]
  exact hrun

end Workflow
