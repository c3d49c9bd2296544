import Workflow.Proofs.Container.Serial

/-! # Workflow.Proofs.Container.Resumption

Under `failFast` a run that fails leaves the tasks behind the failure in the container, and the next
run takes them up. Run until it no longer fails, the container does what one run under `keepGoing`
does.

* `Serial.starts`: a pass gives out every task once, in order.
* `Serial.stops`: a pass that keeps going, cut up at its failures.
* `Stops.calls`: the parts are the runs of the container, one call after another.

The tasks must not ask for the policy, which is what tells the two apart (`asking`).
-/

namespace Workflow

variable {σ : Domain} {execute : Task σ → Exec σ TaskResult} {id : ContainerId}
  {allowed : Policy → Prop}

theorem startedBy_conclusion (name : String) (r : RunResult) :
    startedBy id (conclusion id name r) = [] := by
  cases r <;> rfl

theorem addedTo_conclusion (name : String) (r : RunResult) :
    addedTo id (conclusion id name r) = [] := by
  cases r <;> rfl

theorem flatten_ids (queues : List (Queue (Task σ))) :
    (queues.map Queue.ids).flatten = (queues.flatMap Queue.handles).map Handle.id := by
  induction queues with
  | nil => rfl
  | cons queue rest ih => simp [Queue.ids, ih]

/-- A task is given out, and then what it has added stands behind those that were pending. -/
theorem Turn.starts {handle : Handle (Task σ)} {rest left : List (Handle (Task σ))}
    {m m₁ : Machine σ} {result : TaskResult} {l events : List Event}
    {added : List (Queue (Task σ))}
    (hturn : Turn execute id allowed handle.task m result m₁ l added)
    (h : startedBy id events ++ left.map Handle.id =
      (rest ++ added.flatMap Queue.handles).map Handle.id ++ (addedTo id events).flatten) :
    startedBy id (.taskStarted (some id) handle.id handle.task.name :: l ++ events) ++
        left.map Handle.id =
      (handle :: rest).map Handle.id ++
        (addedTo id (.taskStarted (some id) handle.id handle.task.name :: l ++ events)).flatten := by
  have hstarted : startedBy id (.taskStarted (some id) handle.id handle.task.name :: l) =
      [handle.id] := by
    rw [startedBy, List.filterMap_cons_some (by simp [Event.started?]; rfl)]
    exact congrArg _ hturn.started_eq
  have hadded : addedTo id (.taskStarted (some id) handle.id handle.task.name :: l) =
      added.map Queue.ids := hturn.added_eq
  rw [startedBy_append, addedTo_append, hstarted, hadded, List.append_assoc, h, List.flatten_append,
    flatten_ids, List.map_append]
  simp

/-- The tasks given out are those that were pending and then those that were added, in order, up to
those that are left. -/
theorem Serial.starts {policy : Policy} {pending left : List (Handle (Task σ))} {m m' : Machine σ}
    {r : RunResult} {events : List Event}
    (hs : Serial execute id allowed policy pending m r left m' events) :
    startedBy id events ++ left.map Handle.id =
      pending.map Handle.id ++ (addedTo id events).flatten := by
  induction hs with
  | done => rfl
  | success hturn _ ih => exact hturn.starts ih
  | @stop handle rest m m₁ l added error hturn =>
    have h := @Turn.starts _ _ _ _ _ rest (rest ++ added.flatMap Queue.handles) _ _ _ _ [] _ hturn
      (by simp [startedBy, addedTo])
    rwa [List.append_nil] at h
  | skip hturn _ ih => exact hturn.starts ih

/-- Passes under `failFast`, each over what the one before it left. All but the last stop at a
failure. -/
inductive Stops (execute : Task σ → Exec σ TaskResult) (id : ContainerId)
    (allowed : Policy → Prop) :
    List (Handle (Task σ)) → Machine σ → List ExecutionError → Machine σ → List Event → Prop where
  | last {pending : List (Handle (Task σ))} {m m' : Machine σ} {executed : Nat}
      {events : List Event} :
      Serial execute id allowed .failFast pending m (.ok ⟨executed, []⟩) [] m' events →
      Stops execute id allowed pending m [] m' events
  | next {pending left : List (Handle (Task σ))} {m m₁ m' : Machine σ}
      {failure : ExecutionError} {failures : List ExecutionError} {l events : List Event} :
      Serial execute id allowed .failFast pending m (.error failure) left m₁ l →
      Stops execute id allowed left m₁ failures m' events →
      Stops execute id allowed pending m (failure :: failures) m' (l ++ events)

/-- A task that succeeds belongs to the pass that follows it. -/
theorem Stops.success {handle : Handle (Task σ)} {rest : List (Handle (Task σ))}
    {m m₁ m' : Machine σ} {l events : List Event} {added : List (Queue (Task σ))}
    {failures : List ExecutionError}
    (hturn : Turn execute id allowed handle.task m (.ok ()) m₁ l added)
    (hs : Stops execute id allowed (rest ++ added.flatMap Queue.handles) m₁ failures m' events) :
    Stops execute id allowed (handle :: rest) m failures m'
      (.taskStarted (some id) handle.id handle.task.name :: l ++ events) := by
  cases hs with
  | last hserial => exact .last (.success hturn hserial)
  | next hserial hs =>
    rw [← List.append_assoc]
    exact .next (.success hturn hserial) hs

/-- A pass that keeps going comes to its end without an error and leaves nothing. Cut up at its
failures, it is a sequence of passes that stop. -/
theorem Serial.stops {pending left : List (Handle (Task σ))} {m m' : Machine σ} {r : RunResult}
    {events : List Event} (hs : Serial execute id allowed .keepGoing pending m r left m' events) :
    left = [] ∧ ∃ summary events', r = .ok summary ∧
      Stops execute id allowed pending m summary.failures m' events' ∧
      startedBy id events' = startedBy id events ∧ addedTo id events' = addedTo id events := by
  generalize hpolicy : Policy.keepGoing = policy at hs
  induction hs with
  | done => exact ⟨rfl, .empty, [], rfl, .last .done, rfl, rfl⟩
  | stop => cases hpolicy
  | @success policy handle rest left m m₁ m' l events added r hturn _ ih =>
    obtain ⟨hleft, summary, events', rfl, hstops, hstarted, hadded⟩ := ih hpolicy
    refine ⟨hleft, Summary.ofSuccess ++ summary, _, rfl, hstops.success hturn, ?_, ?_⟩
    · rw [startedBy_append, startedBy_append, hstarted]
    · rw [addedTo_append, addedTo_append, hadded]
  | @skip handle rest left m m₁ m' l events added error r hturn _ ih =>
    obtain ⟨hleft, summary, events', rfl, hstops, hstarted, hadded⟩ := ih rfl
    refine ⟨hleft, Summary.ofFailure (error.attributed handle.task.name) ++ summary, _, rfl,
      .next (.stop hturn) hstops, ?_, ?_⟩
    · rw [startedBy_append, startedBy_append, hstarted]
      rfl
    · rw [addedTo_append, addedTo_append, hadded]
      rfl

/-! ## One call after another -/

/-- The container is run again and again, from `m` to `m'`, with these results. -/
inductive Calls (id : ContainerId) : Machine σ → List RunResult → Machine σ → Prop where
  | nil {m : Machine σ} : Calls id m [] m
  | cons {m m₁ m' : Machine σ} {r : RunResult} {results : List RunResult} :
      Ends (fun fuel => id.execute fuel) m r m₁ → Calls id m₁ results m' →
      Calls id m (r :: results) m'

/-- There is one way that so many calls can go. -/
theorem Calls.deterministic {m m₁ m₂ : Machine σ} {results₁ results₂ : List RunResult}
    (h₁ : Calls id m results₁ m₁) (h₂ : Calls id m results₂ m₂)
    (hlength : results₁.length = results₂.length) : results₁ = results₂ ∧ m₁ = m₂ := by
  induction h₁ generalizing results₂ with
  | nil =>
    cases h₂ with
    | nil => exact ⟨rfl, rfl⟩
    | cons => cases hlength
  | cons hends₁ _ ih =>
    cases h₂ with
    | nil => cases hlength
    | cons hends₂ hrest₂ =>
      obtain ⟨rfl, rfl⟩ := Ends.deterministic id.execute_rising hends₁ hends₂
      obtain ⟨rfl, rfl⟩ := ih hrest₂ (Nat.succ.inj hlength)
      exact ⟨rfl, rfl⟩

/-- Each of the passes is what a run comes to, over whatever queues hold its tasks. -/
theorem Stops.calls {k : Nat} {pending : List (Handle (Task σ))} {m m' : Machine σ}
    {failures : List ExecutionError} {events : List Event}
    (hs : Stops (Task.execute k) id allowed pending m failures m' events)
    (hpolicy : allowed .failFast) (hid : m.store.Has id) {queues : List (Queue (Task σ))}
    (hpending : queues.flatMap Queue.handles = pending) (log : Log) :
    ∃ (executed : Nat) (events' : List Event), Calls id (m.reframe id .failFast queues log)
        (failures.map .error ++ [.ok ⟨executed, []⟩])
        (m'.reframe id .failFast [] (log ++ events')) ∧
      startedBy id events' = startedBy id events ∧ addedTo id events' = addedTo id events := by
  induction hs generalizing queues log with
  | @last pending m m' executed events hserial =>
    obtain ⟨queues', -, hdone, hends⟩ := hserial.executes hpolicy hid hpending log
    obtain rfl := hdone _ rfl
    refine ⟨executed, _, .cons hends .nil, ?_, ?_⟩
    · rw [startedBy_append, startedBy_conclusion, List.append_nil]
      rfl
    · rw [addedTo_append, addedTo_conclusion, List.append_nil]
      rfl
  | @next pending left m m₁ m' failure failures l events hserial _ ih =>
    obtain ⟨queues', hleft, -, hends⟩ := hserial.executes hpolicy hid hpending log
    have hid₁ := hserial.has (Task.execute_grows k) hpolicy hid
    obtain ⟨executed, events', hcalls, hstarted, hadded⟩ :=
      ih hid₁ hleft (log ++ .runStarted id (m.store.container id).name :: l)
    rw [Log.append_append] at hcalls
    rw [conclusion, List.append_nil] at hends
    refine ⟨executed, _, .cons hends hcalls, ?_, ?_⟩
    · rw [startedBy_append, startedBy_append, hstarted]
      rfl
    · rw [addedTo_append, addedTo_append, hadded]
      rfl

/-- The machine with another policy for the container. -/
def Machine.withPolicy (m : Machine σ) (id : ContainerId) (policy : Policy) : Machine σ :=
  { m with store := m.store.modifyContainer id fun c => { c with policy } }

theorem Machine.reframe_withPolicy {m : Machine σ} (hid : m.store.Has id) (policy : Policy) :
    m.reframe id policy (m.store.container id).queues m.log = m.withPolicy id policy := by
  have h : (m.reframe id (m.store.container id).policy (m.store.container id).queues
      m.log).withPolicy id policy = m.reframe id policy (m.store.container id).queues m.log := by
    simp only [withPolicy, reframe, Store.modifyContainer_twice]
  rw [← h, reframe_self hid]

/-- Let one run of a container under `keepGoing` come to its end; its tasks may add queues, but do
not run the container and do not ask for the number of its queues or for its policy, which is the
only thing that is different under `failFast`. Then the run reports its failures in a summary. The
same container under `failFast`, called again and again, fails with each of them in turn, and then
succeeds. The calls give out the same tasks in the same order, every task of the container once, and
the last leaves the scope and the store as the one run does, without a queue. -/
theorem resuming_is_keeping_going {m m' : Machine σ} {r : RunResult} {name : String}
    {events : List Event} (hid : m.store.Has id)
    (hpolicy : (m.store.container id).policy = .keepGoing)
    (h : Ends (fun fuel => id.execute fuel) m r m')
    (hlog : m'.log = m.log ++ .runStarted id name :: events) (hunseen : Unseen id events)
    (hblind : .inspected id .policy ∉ events) :
    ∃ (summary : Summary) (executed : Nat) (m'' : Machine σ) (events' : List Event),
      r = .ok summary ∧
      Calls id (m.withPolicy id .failFast)
        (summary.failures.map .error ++ [.ok ⟨executed, []⟩]) m'' ∧
      m''.log = m.log ++ events' ∧ startedBy id events' = startedBy id events ∧
      startedBy id events =
        (m.store.container id).handles.map Handle.id ++ (addedTo id events).flatten ∧
      m''.toScope = m'.toScope ∧ m''.store = (m'.withPolicy id .failFast).store ∧
      (m'.store.container id).queues = [] := by
  obtain ⟨k, h⟩ := h
  obtain ⟨m₁, l, rfl, hg, rfl, hdone, hserial⟩ := exists_pass (fun _ => True)
    (fun t => t.execute_framed id k) hid (fun _ _ => .inr hblind) h hlog hunseen
  have hid₁ := hg.store.has hid
  rw [hpolicy] at hserial
  have hstarts := hserial.starts
  obtain ⟨hleft, summary, l', rfl, hstops, hstarted, hadded⟩ := hserial.stops
  have hid₀ : (m.bare id).store.Has id := Store.has_modifyContainer.2 hid
  obtain ⟨executed, events', hcalls, hstarted', hadded'⟩ := hstops.calls trivial hid₀ rfl m.log
  rw [Machine.bare_reframe, Machine.bare_reframe, Machine.reframe_withPolicy hid] at hcalls
  have hempty : (m₁.store.container id).queues = [] := hdone _ rfl
  refine ⟨summary, executed, _, events', rfl, hcalls, rfl, ?_, ?_, rfl, ?_, hempty⟩
  · rw [hstarted', hstarted, startedBy_append, startedBy_conclusion, List.append_nil]
  · rw [hleft, List.map_nil, List.append_nil] at hstarts
    rw [startedBy_append, startedBy_conclusion, List.append_nil, hstarts, addedTo_append,
      addedTo_conclusion, List.append_nil]
  · have hstore := congrArg Machine.store (Machine.reframe_withPolicy hid₁ .failFast)
    rw [hempty] at hstore
    exact hstore

def failingQueues : List (Queue (Task Unit)) :=
  [⟨[⟨⟨0⟩, spawning⟩, ⟨⟨1⟩, breaking⟩]⟩, ⟨[]⟩, ⟨[⟨⟨2⟩, breaking⟩]⟩]

def breakingFailure : ExecutionError := .taskFailed "breaking" (.plain "broken")

/-- The first task is the only one to succeed, and the queue that it adds comes last. -/
def failingEvents : List Event :=
  spawningEvents ⟨0⟩ ++
    [⟨1⟩, ⟨2⟩, ⟨7⟩].flatMap (fun task => breakingEvents task ++ [.failureNoted breakingFailure]) ++
    [.runFinished ⟨0⟩ "yard" ⟨1, List.replicate 3 breakingFailure⟩]

theorem execute_failing : ContainerId.execute 6 ⟨0⟩ (yard .keepGoing failingQueues []) =
    .finished (.ok ⟨1, List.replicate 3 breakingFailure⟩)
      (yard .keepGoing [] (.runStarted ⟨0⟩ "yard" :: failingEvents)) := by
  cbv

theorem yard_resuming_is_keeping_going :
    Unseen ⟨0⟩ failingEvents ∧ .inspected ⟨0⟩ .policy ∉ failingEvents ∧
      Ends (fun fuel => ContainerId.execute fuel ⟨0⟩) (yard .keepGoing failingQueues [])
        (.ok ⟨1, List.replicate 3 breakingFailure⟩)
        (yard .keepGoing [] (.runStarted ⟨0⟩ "yard" :: failingEvents)) ∧
      ∃ (executed : Nat) (m : Machine Unit) (events : List Event),
        Calls ⟨0⟩ (yard .failFast failingQueues [])
          (List.replicate 3 (.error breakingFailure) ++ [.ok ⟨executed, []⟩]) m ∧
        m.log = (#[] : Log) ++ events ∧ startedBy ⟨0⟩ events = [⟨0⟩, ⟨1⟩, ⟨2⟩, ⟨7⟩] ∧
        m.store = (yard .failFast [] []).store := by
  have hunseen : Unseen ⟨0⟩ failingEvents :=
    ⟨by simp [failingEvents, spawningEvents, breakingEvents],
      by simp [failingEvents, spawningEvents, breakingEvents]⟩
  have hblind : .inspected ⟨0⟩ .policy ∉ failingEvents := by
    simp [failingEvents, spawningEvents, breakingEvents]
  have hid : (yard .keepGoing failingQueues []).store.Has ⟨0⟩ := by simp [yard, Store.Has]
  obtain ⟨summary, executed, m, events, hr, hcalls, hlog, hstarted, _, _, hstore, _⟩ :=
    resuming_is_keeping_going hid rfl ⟨6, execute_failing⟩ rfl hunseen hblind
  cases hr
  exact ⟨hunseen, hblind, ⟨6, execute_failing⟩, executed, m, events, hcalls, hlog, hstarted, hstore⟩

/-- A leaf that fails only where the first failure ends the run. -/
def asking : Task Unit := .leaf "asking" <| .inspect ⟨0⟩ .policy fun policy =>
  .done (if policy = .failFast then .error (.plain "asked") else .ok ())

def askingEvents : List Event :=
  [.taskStarted (some ⟨0⟩) ⟨0⟩ "asking", .leafStarted "asking", .inspected ⟨0⟩ .policy,
    .runFinished ⟨0⟩ "yard" ⟨1, []⟩]

/-- Hence the condition on the policy: the run of this leaf under `keepGoing` reports no failure,
adds nothing, runs nothing and counts nothing, and the same container under `failFast` does not
succeed on its first call. -/
theorem asking_fails_on_resuming :
    ∃ (m : Machine Unit) (events : List Event),
      Ends (fun fuel => ContainerId.execute fuel ⟨0⟩) (yard .keepGoing [⟨[⟨⟨0⟩, asking⟩]⟩] [])
        (.ok ⟨1, []⟩) m ∧
      m.log = (#[] : Log) ++ .runStarted ⟨0⟩ "yard" :: events ∧ Unseen ⟨0⟩ events ∧
      ¬ ∃ (executed : Nat) (m' : Machine Unit),
        Calls ⟨0⟩ (yard .failFast [⟨[⟨⟨0⟩, asking⟩]⟩] []) [.ok ⟨executed, []⟩] m' := by
  have hkept : ContainerId.execute 4 ⟨0⟩ (yard .keepGoing [⟨[⟨⟨0⟩, asking⟩]⟩] []) =
      .finished (.ok ⟨1, []⟩) (yard .keepGoing [] (.runStarted ⟨0⟩ "yard" :: askingEvents)) := by
    cbv
  have hunseen : Unseen ⟨0⟩ askingEvents := ⟨by simp [askingEvents], by simp [askingEvents]⟩
  refine ⟨_, askingEvents, ⟨4, hkept⟩, rfl, hunseen, ?_⟩
  rintro ⟨executed, m', hcalls⟩
  obtain ⟨m, hfailed⟩ : ∃ m : Machine Unit,
      ContainerId.execute 4 ⟨0⟩ (yard .failFast [⟨[⟨⟨0⟩, asking⟩]⟩] []) =
        .finished (.error (.taskFailed "asking" (.plain "asked"))) m := ⟨_, rfl⟩
  -- There is one way that the first call can go, and it is this failure.
  obtain ⟨hresults, -⟩ := hcalls.deterministic (.cons ⟨4, hfailed⟩ .nil) rfl
  cases hresults

end Workflow
