import Mathlib.Tactic.Ring
import Workflow.Proofs.Attribution
import Workflow.Proofs.Blocking

/-! # Workflow.Proofs.Iteration

What a loop comes to. A pass asks the condition, builds the body and drains it. After some passes in
full the loop comes to its end in one of three ways: the condition is false, the condition is true
and the limit is used up, or the body of the next pass fails.

* `AsksAfter`, `BodyComesTo`: the last thing that a loop does, after how many passes in full.
* `exists_course_of_iterate`: there is no other end, by induction on the fuel.
* `AsksAfter.tallied`: how often the condition has been asked and the body drained, whatever counts it.
-/

namespace Workflow

variable {σ : Domain}

section

variable (condition : Condition σ) (limit : Option Nat) (body : Factory σ (Task σ))

/-- After that many passes in full, the condition is asked once more and gives that answer. -/
def AsksAfter (m : Machine σ) (passes : Nat) (holds : Bool) (m' : Machine σ) : Prop :=
  ∃ m₁, Passes condition limit body m passes m₁ ∧ Exec.ask condition m₁ = .finished holds m'

/-- After that many passes in full, one more is begun, and draining its body comes to that. -/
def BodyComesTo (m : Machine σ) (passes : Nat) (outcome : Outcome σ TaskResult) : Prop :=
  ∃ m₁ queue m₂ fuel, AsksAfter condition limit body m passes true m₁ ∧ (∀ n ∈ limit, passes < n) ∧
    body.build m₁ = .finished queue m₂ ∧ drainWithin (Task.execute fuel) queue m₂ = outcome

/-- A number kept in the state that grows by `asked` each time that the condition is asked and by
`drained` each time that a body is built and drained. -/
structure Tallies (tally : σ → Nat) (asked drained : Nat) : Prop where
  ask : ∀ scope, tally (condition scope).state = tally scope.state + asked
  drain : ∀ {m m₁ m₂ : Machine σ} {queue result}, body.build m = .finished queue m₁ →
    Ends (fun fuel => drainWithin (Task.execute fuel) queue) m₁ result m₂ →
    tally m₂.state = tally m.state + drained

end

variable {condition : Condition σ} {limit : Option Nat} {body : Factory σ (Task σ)}
  {m m₁ m₂ m' : Machine σ} {passes : Nat} {holds : Bool}

theorem iterate_of_false {execute : Task σ → Exec σ TaskResult} (name : String) (fuel : Nat)
    (hask : Exec.ask condition m = .finished false m₁) :
    iterate execute name condition limit body passes (fuel + 1) m =
      .finished (.ok ()) (m₁.logged (.loopFinished passes)) := by
  simp only [iterate]
  rw [Exec.bind_of_finished hask]
  rfl

theorem drainWithin_of_le {queue : Queue (Task σ)} {fuel fuel' : Nat} (hle : fuel ≤ fuel')
    {outcome : Outcome σ TaskResult} (h : drainWithin (Task.execute fuel) queue m = outcome)
    (hfuel : outcome ≠ .outOfFuel) : drainWithin (Task.execute fuel') queue m = outcome := by
  subst h
  exact drainWithin_rising queue fuel fuel' hle m hfuel

/-! ## Passes -/

theorem Passes.le_limit (h : Passes condition limit body m passes m') : ∀ n ∈ limit, passes ≤ n := by
  cases h with
  | none => exact fun n _ => Nat.zero_le n
  | next _ _ hlimit _ _ => exact hlimit

theorem Passes.deterministic (h₁ : Passes condition limit body m passes m₁)
    (h₂ : Passes condition limit body m passes m₂) : m₁ = m₂ := by
  induction h₁ generalizing m₂ with
  | none =>
    cases h₂
    rfl
  | next _ hask _ hbuild hbody ih =>
    cases h₂ with
    | next hpasses hask' _ hbuild' hbody' =>
      obtain rfl := ih hpasses
      rw [hask] at hask'
      cases hask'
      rw [hbuild] at hbuild'
      cases hbuild'
      exact (hbody.deterministic (drainWithin_rising _) hbody').2

/-- In each pass that is made in full the body succeeds. -/
theorem Passes.body_comesTo (h : Passes condition limit body m passes m') {j : Nat} (hj : j < passes)
    {outcome : Outcome σ TaskResult} (hbody : BodyComesTo condition limit body m j outcome) :
    outcome = .outOfFuel ∨ ∃ m₁, outcome = .finished (.ok ()) m₁ := by
  induction h with
  | none => cases hj
  | @next m₁ m₂ m₃ m₄ passes queue hpasses hask _ hbuild hends ih =>
    rcases Nat.lt_succ_iff_lt_or_eq.1 hj with hlt | rfl
    · exact ih hlt
    · obtain ⟨m₂', queue', m₃', fuel, ⟨m₁', hpasses', hask'⟩, _, hbuild', houtcome⟩ := hbody
      obtain rfl := hpasses.deterministic hpasses'
      rw [hask] at hask'
      cases hask'
      rw [hbuild] at hbuild'
      cases hbuild'
      by_cases hfuel : outcome = .outOfFuel
      · exact .inl hfuel
      -- With enough fuel the drain ends as it does in the pass, and more fuel changes no outcome.
      obtain ⟨enough, hends⟩ := hends.eventually (drainWithin_rising queue)
      have hmore := drainWithin_of_le (Nat.le_max_right enough fuel) houtcome hfuel
      exact .inr ⟨m₄, hmore.symm.trans (hends _ (Nat.le_max_left _ _))⟩

theorem AsksAfter.le_limit (h : AsksAfter condition limit body m passes holds m') :
    ∀ n ∈ limit, passes ≤ n := by
  obtain ⟨m₁, hpasses, _⟩ := h
  exact hpasses.le_limit

theorem AsksAfter.context (h : AsksAfter condition limit body m passes holds m') :
    ∃ m₁, Passes condition limit body m passes m₁ ∧ m'.context = m₁.context := by
  obtain ⟨m₁, hpasses, hask⟩ := h
  cases hask
  exact ⟨m₁, hpasses, rfl⟩

section Tally

variable {tally : σ → Nat} {asked drained : Nat}

theorem Tallies.asks (ht : Tallies condition body tally asked drained)
    (h : Exec.ask condition m = .finished holds m') :
    tally m'.state = tally m.state + asked := by
  cases h
  exact ht.ask m.toScope

theorem Passes.tallied (h : Passes condition limit body m passes m')
    (ht : Tallies condition body tally asked drained) :
    tally m'.state = tally m.state + passes * (asked + drained) := by
  induction h with
  | none => simp
  | next _ hask _ hbuild hbody ih =>
    rw [ht.drain hbuild hbody, ht.asks hask, ih]
    ring

/-- The condition is asked once more often than the body is drained. -/
theorem AsksAfter.tallied (h : AsksAfter condition limit body m passes holds m')
    (ht : Tallies condition body tally asked drained) :
    tally m'.state = tally m.state + (passes + 1) * asked + passes * drained := by
  obtain ⟨m₁, hpasses, hask⟩ := h
  rw [ht.asks hask, hpasses.tallied ht]
  ring

theorem BodyComesTo.tallied {result : TaskResult}
    (h : BodyComesTo condition limit body m passes (.finished result m'))
    (ht : Tallies condition body tally asked drained) :
    tally m'.state = tally m.state + (passes + 1) * asked + (passes + 1) * drained := by
  obtain ⟨m₁, queue, m₂, fuel, hasks, _, hbuild, hbody⟩ := h
  rw [ht.drain hbuild ⟨fuel, hbody⟩, hasks.tallied ht]
  ring

end Tally

/-! ## What a loop comes to -/

/-- However a loop goes on after some passes in full, with fuel enough: one more of its conditions is
the last thing that it asks, or the body of one more pass is the last thing that it drains. -/
theorem exists_course_of_iterate {name : String} {k fuel : Nat} {outcome : Outcome σ TaskResult}
    (houtcome : outcome ≠ .outOfFuel) (hpasses : Passes condition limit body m passes m₁)
    (h : iterate (Task.execute k) name condition limit body passes fuel m₁ = outcome) :
    (∃ n m₂, AsksAfter condition limit body m n false m₂ ∧
      outcome = .finished (.ok ()) (m₂.logged (.loopFinished n))) ∨
    (∃ n m₂, limit = some n ∧ AsksAfter condition limit body m n true m₂ ∧
      outcome = .finished (.error (.execution (.iterationLimitExceeded name n))) m₂) ∨
    ((∃ j, BodyComesTo condition limit body m j outcome) ∧
      ∀ m₂, outcome ≠ .finished (.ok ()) m₂) := by
  induction fuel generalizing passes m₁ with
  | zero => exact absurd h.symm houtcome
  | succ fuel ih =>
    obtain ⟨holds, m₂, hask⟩ : ∃ holds m₂, Exec.ask condition m₁ = .finished holds m₂ := ⟨_, _, rfl⟩
    cases holds with
    | false =>
      rw [iterate_of_false name fuel hask] at h
      exact .inl ⟨passes, m₂, ⟨m₁, hpasses, hask⟩, h.symm⟩
    | true =>
      by_cases hlimit : ∀ n ∈ limit, passes < n
      · obtain ⟨queue, m₃, hbuild⟩ := body.exists_build m₂
        rw [iterate_of_pass name fuel hask hlimit hbuild] at h
        have hcomes : BodyComesTo condition limit body m passes
            (drainWithin (Task.execute k) queue m₃) :=
          ⟨m₂, queue, m₃, k, ⟨m₁, hpasses, hask⟩, hlimit, hbuild, rfl⟩
        cases hbody : drainWithin (Task.execute k) queue m₃ with
        | finished result m₄ =>
          rw [Exec.bind_of_finished hbody] at h
          cases result with
          | ok => exact ih (.next hpasses hask hlimit hbuild ⟨k, hbody⟩) h
          | error error =>
            rw [hbody] at hcomes
            subst h
            exact .inr (.inr ⟨⟨passes, hcomes⟩, nofun⟩)
        | blocked c m₄ =>
          rw [Exec.bind_of_blocked hbody] at h
          rw [hbody] at hcomes
          subst h
          exact .inr (.inr ⟨⟨passes, hcomes⟩, nofun⟩)
        | outOfFuel =>
          rw [Exec.bind_of_outOfFuel hbody] at h
          exact absurd h.symm houtcome
      · obtain ⟨n, rfl, hle⟩ : ∃ n, limit = some n ∧ n ≤ passes := by
          simpa using hlimit
        obtain rfl : n = passes := Nat.le_antisymm hle (hpasses.le_limit n rfl)
        rw [iterate_of_exceeded name fuel n hask (Nat.le_refl n)] at h
        exact .inr (.inl ⟨n, m₂, rfl, ⟨m₁, hpasses, hask⟩, h.symm⟩)

theorem exists_course_of_loop {fuel : Nat} {outcome : Outcome σ TaskResult}
    (h : (Task.loop condition limit body).execute fuel m = outcome)
    (houtcome : outcome ≠ .outOfFuel) :
    (∃ n m₂, AsksAfter condition limit body m n false m₂ ∧
      outcome = .finished (.ok ()) (m₂.logged (.loopFinished n))) ∨
    (∃ n m₂, limit = some n ∧ AsksAfter condition limit body m n true m₂ ∧
      outcome = .finished (.error (.execution (.iterationLimitExceeded "loop" n))) m₂) ∨
    ((∃ j, BodyComesTo condition limit body m j outcome) ∧
      ∀ m₂, outcome ≠ .finished (.ok ()) m₂) := by
  cases fuel with
  | zero => exact absurd h.symm houtcome
  | succ fuel => exact exists_course_of_iterate houtcome .none h

/-- The loop comes to what it comes to from the moment after those passes. -/
theorem Passes.execute_loop (h : Passes condition limit body m passes m₁)
    {outcome : Outcome σ TaskResult} (hlast : ∃ enough, ∀ k fuel, enough ≤ k →
      Workflow.iterate (Task.execute k) "loop" condition limit body passes (fuel + 1) m₁ = outcome) :
    ∃ fuel, (Task.loop condition limit body).execute fuel m = outcome := by
  obtain ⟨enough₁, hpasses⟩ := h.iterate "loop"
  obtain ⟨enough₂, hlast⟩ := hlast
  let k := passes + (max enough₁ enough₂ + 1)
  exact ⟨k + 1, (hpasses k _ (by omega)).trans (hlast k _ (by omega))⟩

theorem AsksAfter.ends_of_false (h : AsksAfter condition limit body m passes false m') :
    (Task.loop condition limit body).Ends m (.ok ()) (m'.logged (.loopFinished passes)) := by
  obtain ⟨m₁, hpasses, hask⟩ := h
  exact hpasses.execute_loop ⟨0, fun _ fuel _ => iterate_of_false "loop" fuel hask⟩

theorem AsksAfter.ends_of_true {n : Nat} (h : AsksAfter condition (some n) body m n true m') :
    (Task.loop condition (some n) body).Ends m
      (.error (.execution (.iterationLimitExceeded "loop" n))) m' := by
  obtain ⟨m₁, hpasses, hask⟩ := h
  exact hpasses.execute_loop
    ⟨0, fun _ fuel _ => iterate_of_exceeded "loop" fuel n hask (Nat.le_refl n)⟩

/-- A loop stops where the body of a pass does not succeed, and comes to what the body comes to. -/
theorem BodyComesTo.execute_loop {outcome : Outcome σ TaskResult}
    (h : BodyComesTo condition limit body m passes outcome) (hfuel : outcome ≠ .outOfFuel)
    (hok : ∀ m₁, outcome ≠ .finished (.ok ()) m₁) :
    ∃ fuel, (Task.loop condition limit body).execute fuel m = outcome := by
  obtain ⟨m₂, queue, m₃, enough, ⟨m₁, hpasses, hask⟩, hlimit, hbuild, hbody⟩ := h
  refine hpasses.execute_loop ⟨enough, fun k fuel hle => ?_⟩
  have hbody := drainWithin_of_le hle hbody hfuel
  rw [iterate_of_pass "loop" fuel hask hlimit hbuild]
  cases outcome with
  | finished result m₄ =>
    rw [Exec.bind_of_finished hbody]
    cases result with
    | ok => exact absurd rfl (hok m₄)
    | error error => rfl
  | blocked c m₄ => exact Exec.bind_of_blocked hbody _
  | outOfFuel => exact absurd rfl hfuel

/-- A loop succeeds just when after some passes in full the condition is false. It fails with an
error of its own just when the limit is used up and the condition still true, and with the error of a
body just when a body fails, which never are both the case; and it waits where a body waits. No limit
is exceeded, and the condition is asked once for each body and once more if no body failed. Only a
loop that succeeds writes that it has finished: after an error the machine is as the condition or the
body has left it. -/
theorem loop_comes_to_one_of_three_ends (condition : Condition σ) (limit : Option Nat)
    (body : Factory σ (Task σ)) (m : Machine σ) :
    (∀ m', (Task.loop condition limit body).Ends m (.ok ()) m' ↔
      ∃ k m₁, AsksAfter condition limit body m k false m₁ ∧ m' = m₁.logged (.loopFinished k)) ∧
    (∀ error m', (Task.loop condition limit body).Ends m (.error error) m' ↔
      (∃ n, limit = some n ∧ AsksAfter condition limit body m n true m' ∧
        error = .execution (.iterationLimitExceeded "loop" n)) ∨
      ∃ j, BodyComesTo condition limit body m j (.finished (.error error) m')) ∧
    (∀ n m₁, limit = some n → AsksAfter condition limit body m n true m₁ →
      ∀ j error m', ¬ BodyComesTo condition limit body m j (.finished (.error error) m')) ∧
    (∀ c m', (∃ fuel, (Task.loop condition limit body).execute fuel m = .blocked c m') ↔
      ∃ j, BodyComesTo condition limit body m j (.blocked c m')) ∧
    (∀ k holds m', AsksAfter condition limit body m k holds m' →
      (∀ n ∈ limit, k ≤ n) ∧
      (∃ m₁, Passes condition limit body m k m₁ ∧ m'.context = m₁.context) ∧
      (m'.logged (.loopFinished k)).log.records = m'.log.records ++
        [⟨.debug, "Loop finished after " ++ toString k ++ " iteration(s)"⟩] ∧
      ∀ tally asked drained, Tallies condition body tally asked drained →
        tally m'.state = tally m.state + (k + 1) * asked + k * drained) ∧
    ∀ j result m', BodyComesTo condition limit body m j (.finished result m') →
      ∀ tally asked drained, Tallies condition body tally asked drained →
        tally m'.state = tally m.state + (j + 1) * asked + (j + 1) * drained := by
  refine ⟨fun m' => ⟨?_, ?_⟩, fun error m' => ⟨?_, ?_⟩, ?_, fun c m' => ⟨?_, ?_⟩, ?_, ?_⟩
  · rintro ⟨fuel, h⟩
    rcases exists_course_of_loop h nofun with
      ⟨k, m₁, hasks, heq⟩ | ⟨n, m₁, _, _, heq⟩ | ⟨_, hok⟩
    · cases heq
      exact ⟨k, m₁, hasks, rfl⟩
    · cases heq
    · exact absurd rfl (hok m')
  · rintro ⟨k, m₁, hasks, rfl⟩
    exact hasks.ends_of_false
  · rintro ⟨fuel, h⟩
    rcases exists_course_of_loop h nofun with
      ⟨k, m₁, _, heq⟩ | ⟨n, m₁, hlimit, hasks, heq⟩ | ⟨hbody, _⟩
    · cases heq
    · cases heq
      exact .inl ⟨n, hlimit, hasks, rfl⟩
    · exact .inr hbody
  · rintro (⟨n, rfl, hasks, rfl⟩ | ⟨j, hbody⟩)
    · exact hasks.ends_of_true
    · exact hbody.execute_loop nofun nofun
  · rintro n m₁ rfl ⟨m₂, hpasses, _⟩ j error m' hbody
    have hlt : j < n := by
      obtain ⟨_, _, _, _, _, hlimit, _⟩ := hbody
      exact hlimit n rfl
    rcases hpasses.body_comesTo hlt hbody with h | ⟨_, h⟩ <;> cases h
  · rintro ⟨fuel, h⟩
    rcases exists_course_of_loop h nofun with
      ⟨k, m₁, _, heq⟩ | ⟨n, m₁, _, _, heq⟩ | ⟨hbody, _⟩
    · cases heq
    · cases heq
    · exact hbody
  · rintro ⟨j, hbody⟩
    exact hbody.execute_loop nofun nofun
  · intro k holds m' hasks
    refine ⟨hasks.le_limit, hasks.context, ?_, fun tally asked drained ht => hasks.tallied ht⟩
    simp [Machine.logged, Log.records, Event.record?]
  · rintro j result m' hbody tally asked drained ht
    exact hbody.tallied ht

/-! A condition that counts how often it is asked, under limits that it keeps and breaks. -/

/-- It holds the first two times. -/
def twice : Condition Nat := fun scope => ⟨scope.state < 2, scope.state + 1, []⟩

def notching : Task Nat := .leaf "notching" <| .read fun scope =>
  .write { scope with context := scope.context.insert "notched" (Int64.ofNat scope.state) }
    (.done (.ok ()))

def notches : Factory Nat (Task Nat) := .template ⟨[⟨⟨0⟩, notching⟩]⟩

/-- A machine that has made that many passes, each with a mark. -/
def notched : Nat → Machine Nat
  | 0 => ⟨⟨.empty, 0⟩, .empty, #[]⟩
  | passes + 1 =>
    let m := notched passes
    { m with
      context := m.context.insert "notched" (Int64.ofNat (m.state + 1))
      state := m.state + 1
      log := (m.log.push (.taskStarted none ⟨0⟩ "notching")).push (.leafStarted "notching") }

/-- The condition has been asked once more. -/
def notched.asked (passes : Nat) : Machine Nat :=
  let m := notched passes
  { m with state := m.state + 1 }

theorem tallies_twice : Tallies twice notches id 1 0 where
  ask _ := rfl
  drain {m m₁ m₂ queue result} hbuild hends := by
    cases hbuild
    obtain ⟨fuel, h⟩ := hends
    cases fuel with
    | zero => cases h
    | succ fuel =>
      cases h
      rfl

theorem twice_comes_to_its_ends :
    (Task.loop twice (some 2) notches).Ends (notched 0) (.ok ())
      ((notched.asked 2).logged (.loopFinished 2)) ∧
    (notched.asked 2).state = (notched 0).state + 3 ∧
    (Task.loop twice (some 1) notches).Ends (notched 0)
      (.error (.execution (.iterationLimitExceeded "loop" 1))) (notched.asked 1) ∧
    (Task.loop twice (some 0) notches).Ends (notched 0)
      (.error (.execution (.iterationLimitExceeded "loop" 0))) (notched.asked 0) := by
  have htwo : AsksAfter twice (some 2) notches (notched 0) 2 false (notched.asked 2) := by
    have hfirst : Passes twice (some 2) notches (notched 0) 1 (notched 1) :=
      .next .none rfl (by simp) rfl ⟨1, rfl⟩
    exact ⟨notched 2, .next hfirst rfl (by simp) rfl ⟨1, rfl⟩, rfl⟩
  have hone : AsksAfter twice (some 1) notches (notched 0) 1 true (notched.asked 1) :=
    ⟨notched 1, .next .none rfl (by simp) rfl ⟨1, rfl⟩, rfl⟩
  have hzero : AsksAfter twice (some 0) notches (notched 0) 0 true (notched.asked 0) :=
    ⟨notched 0, .none, rfl⟩
  obtain ⟨hok, -, -, -, hasks, -⟩ :=
    loop_comes_to_one_of_three_ends twice (some 2) notches (notched 0)
  obtain ⟨-, herror, -⟩ := loop_comes_to_one_of_three_ends twice (some 1) notches (notched 0)
  obtain ⟨-, herror', -⟩ := loop_comes_to_one_of_three_ends twice (some 0) notches (notched 0)
  obtain ⟨-, -, -, htally⟩ := hasks _ _ _ htwo
  exact ⟨(hok _).2 ⟨2, _, htwo, rfl⟩, htally id 1 0 tallies_twice,
    (herror _ _).2 (.inl ⟨1, rfl, hone, rfl⟩), (herror' _ _).2 (.inl ⟨0, rfl, hzero, rfl⟩)⟩

end Workflow
