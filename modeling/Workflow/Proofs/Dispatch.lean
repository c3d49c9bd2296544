import Mathlib.Data.Finset.Card
import Workflow.Proofs.Chaining
import Workflow.Proofs.Draining

/-! # Workflow.Proofs.Dispatch

A switch obeys the last registration. `Registering` is one call in the building of a switch, and
whatever the calls were before, the last that registered a key, and the last that set a default, say
what the switch does.

* `Switch.lookup_register`: a registration against every key.
* `Switch.case?_build`, `Switch.fallback_build`, `Switch.caseCount_build`: what was registered.
* `Switch.execute_build_succ`: the execution, read off these.
* `Switch.ends_of_lastCase?`, `Switch.ends_of_lastDefault?`: the tasks that it executes in turn.
* `Switch.chain_delays`: a chain of branches that asks for one key after another.
* `switch_obeys_last_registration`: every selector and all calls.
-/

namespace Workflow

variable {σ : Domain} {τ α β : Type}

/-! ## Registrations -/

/-- Cases under different keys, in whatever order. -/
structure CaseMap (σ : Domain) (τ : Type) where
  entries : List (σ.Key × Queue τ)
  nodup : (entries.map Prod.fst).Nodup

/-- One call in the building of a switch. -/
inductive Registering (σ : Domain) (τ : Type) where
  | case (key : σ.Key) (queue : Queue τ)
  | cases (map : CaseMap σ τ)
  | default (queue : Queue τ)

namespace Registering

def apply (s : Switch σ τ) : Registering σ τ → Switch σ τ
  | case key queue => s.withCase key queue
  | cases map => s.withCases map.entries
  | default queue => s.withDefault queue

/-- The keys that the call registers. -/
def keys : Registering σ τ → List σ.Key
  | case key _ => [key]
  | cases map => map.entries.map Prod.fst
  | default _ => []

/-- The queue that the call registers for the key. -/
def case? (key : σ.Key) : Registering σ τ → Option (Queue τ)
  | case k queue => if key = k then some queue else none
  | cases map => map.entries.lookup key
  | default _ => none

/-- The queue that the call makes the default. -/
def default? : Registering σ τ → Option (Queue τ)
  | default queue => some queue
  | _ => none

theorem isSome_case?_iff (call : Registering σ τ) (key : σ.Key) :
    (call.case? key).isSome = true ↔ key ∈ call.keys := by
  cases call with
  | case k queue => by_cases h : key = k <;> simp [case?, keys, h]
  | cases map => exact isSome_lookup_iff map.entries key
  | default queue => simp [case?, keys]

end Registering

/-- What the last of the calls says that says anything. -/
def lastOf (f : α → Option β) (calls : List α) : Option β := (calls.filterMap f).getLast?

theorem lastOf_cons (f : α → Option β) (call : α) (calls : List α) :
    lastOf f (call :: calls) = (lastOf f calls).or (f call) := by
  unfold lastOf
  cases h : f call with
  | none => simp [h]
  | some b =>
    rw [List.filterMap_cons_some h, List.getLast?_cons]
    cases (calls.filterMap f).getLast? <;> rfl

theorem isSome_lastOf_iff (f : α → Option β) (calls : List α) :
    (lastOf f calls).isSome = true ↔ ∃ call ∈ calls, (f call).isSome = true := by
  induction calls with
  | nil => simp [lastOf]
  | cons call calls ih => simp [lastOf_cons, ih, or_comm]

namespace Switch

/-- The switch that the calls come to. -/
def build (selector : Scope σ → Answer σ σ.Key) (calls : List (Registering σ τ)) : Switch σ τ :=
  calls.foldl Registering.apply (new selector)

def keys (s : Switch σ τ) : List σ.Key := s.cases.map Prod.fst

theorem lookup_register (key : σ.Key) (queue : Queue τ) (cases : List (σ.Key × Queue τ))
    (k : σ.Key) :
    (register key queue cases).lookup k = if k = key then some queue else cases.lookup k := by
  induction cases with
  | nil => simp [register, lookup_cons_eq_ite]
  | cons e rest ih =>
    simp only [register]
    split <;> grind [lookup_cons_eq_ite]

theorem keys_register (key : σ.Key) (queue : Queue τ) (cases : List (σ.Key × Queue τ)) :
    (register key queue cases).map Prod.fst =
      if key ∈ cases.map Prod.fst then cases.map Prod.fst else cases.map Prod.fst ++ [key] := by
  induction cases with
  | nil => simp [register]
  | cons e rest ih =>
    simp only [register]
    split <;> grind

theorem case?_withCase (s : Switch σ τ) (key : σ.Key) (queue : Queue τ) (k : σ.Key) :
    (s.withCase key queue).case? k = if k = key then some queue else s.case? k :=
  lookup_register key queue s.cases k

theorem nodup_keys_withCase {s : Switch σ τ} (h : s.keys.Nodup) (key : σ.Key) (queue : Queue τ) :
    (s.withCase key queue).keys.Nodup := by
  unfold keys withCase at *
  rw [keys_register]
  split
  · exact h
  · rename_i hkey
    exact List.nodup_append.2 ⟨h, List.nodup_singleton key, by grind⟩

theorem case?_withCases (s : Switch σ τ) {entries : List (σ.Key × Queue τ)}
    (h : (entries.map Prod.fst).Nodup) (key : σ.Key) :
    (s.withCases entries).case? key = (entries.lookup key).or (s.case? key) := by
  unfold withCases
  induction entries generalizing s with
  | nil => rfl
  | cons e rest ih =>
    obtain ⟨hnew, hrest⟩ := List.nodup_cons.1 h
    rw [List.foldl_cons, ih _ hrest, case?_withCase, lookup_cons_eq_ite]
    by_cases hkey : key = e.1
    · have hnone : rest.lookup key = none := by
        rw [← Option.not_isSome_iff_eq_none, isSome_lookup_iff, hkey]
        exact hnew
      simp [hkey ▸ hnone, hkey]
    · simp [hkey]

theorem nodup_keys_withCases {s : Switch σ τ} (h : s.keys.Nodup)
    (entries : List (σ.Key × Queue τ)) : (s.withCases entries).keys.Nodup := by
  refine List.foldlRecOn (motive := fun t : Switch σ τ => t.keys.Nodup) entries _ h ?_
  intro t ht e _
  exact nodup_keys_withCase ht e.1 e.2

theorem fallback_withCases (s : Switch σ τ) (entries : List (σ.Key × Queue τ)) :
    (s.withCases entries).fallback = s.fallback := by
  refine List.foldlRecOn (motive := fun t : Switch σ τ => t.fallback = s.fallback) entries _ rfl ?_
  intro t ht _ _
  exact ht

theorem selector_withCases (s : Switch σ τ) (entries : List (σ.Key × Queue τ)) :
    (s.withCases entries).selector = s.selector := by
  refine List.foldlRecOn (motive := fun t : Switch σ τ => t.selector = s.selector) entries _ rfl ?_
  intro t ht _ _
  exact ht

/-! ## One call, and all of them -/

section Apply

variable (s : Switch σ τ) (call : Registering σ τ)

theorem case?_apply (key : σ.Key) :
    (call.apply s).case? key = (call.case? key).or (s.case? key) := by
  cases call with
  | case k queue =>
    rw [Registering.apply, case?_withCase, Registering.case?]
    split <;> rfl
  | cases map => exact case?_withCases s map.nodup key
  | default queue => rfl

theorem fallback_apply : (call.apply s).fallback = call.default?.or s.fallback := by
  cases call with
  | case k queue => rfl
  | cases map => exact fallback_withCases s map.entries
  | default queue => rfl

theorem selector_apply : (call.apply s).selector = s.selector := by
  cases call with
  | case k queue => rfl
  | cases map => exact selector_withCases s map.entries
  | default queue => rfl

theorem nodup_keys_apply {s : Switch σ τ} (h : s.keys.Nodup) : (call.apply s).keys.Nodup := by
  cases call with
  | case k queue => exact nodup_keys_withCase h k queue
  | cases map => exact nodup_keys_withCases h map.entries
  | default queue => exact h

end Apply

end Switch

/-- What each step reads off its own call, or else leaves as it was, is read off the last. -/
theorem foldl_eq_lastOf {γ : Type} {step : γ → α → γ} (read : γ → Option β) {f : α → Option β}
    (h : ∀ s call, read (step s call) = (f call).or (read s)) (calls : List α) (s : γ) :
    read (calls.foldl step s) = (lastOf f calls).or (read s) := by
  induction calls generalizing s with
  | nil => rfl
  | cons call calls ih => rw [List.foldl_cons, ih, h, lastOf_cons, Option.or_assoc]

/-- The queue of the last call that registers the key. -/
def lastCase? (calls : List (Registering σ τ)) (key : σ.Key) : Option (Queue τ) :=
  lastOf (Registering.case? key) calls

/-- The queue of the last call that sets a default. -/
def lastDefault? (calls : List (Registering σ τ)) : Option (Queue τ) :=
  lastOf Registering.default? calls

theorem isSome_lastCase?_iff (calls : List (Registering σ τ)) (key : σ.Key) :
    (lastCase? calls key).isSome = true ↔ key ∈ calls.flatMap Registering.keys := by
  simp only [lastCase?, isSome_lastOf_iff, Registering.isSome_case?_iff, List.mem_flatMap]

namespace Switch

variable (selector : Scope σ → Answer σ σ.Key) (calls : List (Registering σ τ))

theorem case?_build (key : σ.Key) : (build selector calls).case? key = lastCase? calls key :=
  (foldl_eq_lastOf (fun s => s.case? key) (fun s call => case?_apply s call key) calls
    (new selector)).trans Option.or_none

theorem fallback_build : (build selector calls).fallback = lastDefault? calls :=
  (foldl_eq_lastOf fallback fallback_apply calls (new selector)).trans Option.or_none

theorem selector_build : (build selector calls).selector = selector := by
  refine List.foldlRecOn (motive := fun s : Switch σ τ => s.selector = selector) calls _ rfl ?_
  intro s hs call _
  rw [selector_apply, hs]

theorem nodup_keys_build : (build selector calls).keys.Nodup := by
  refine List.foldlRecOn (motive := fun s : Switch σ τ => s.keys.Nodup) calls _ List.nodup_nil ?_
  intro s hs call _
  exact nodup_keys_apply call hs

theorem caseCount_build :
    (build selector calls).caseCount = (calls.flatMap Registering.keys).toFinset.card := by
  have hkeys : (build selector calls).keys.toFinset =
      (calls.flatMap Registering.keys).toFinset := by
    ext key
    rw [List.mem_toFinset, List.mem_toFinset, ← isSome_lastCase?_iff, ← case?_build selector]
    exact (isSome_lookup_iff _ key).symm
  rw [← hkeys, List.toFinset_card_of_nodup (nodup_keys_build selector calls)]
  exact (List.length_map _).symm

end Switch

/-! ## Execution -/

namespace Switch

/-- Asks the selector, once, and drains the queue for its answer, if there is one. -/
def dispatch (execute : Task σ → Exec σ TaskResult) (selector : Scope σ → Answer σ σ.Key)
    (case? : σ.Key → Option (Queue (Task σ))) (fallback : Option (Queue (Task σ))) :
    Exec σ TaskResult :=
  Exec.ask selector >>= fun key =>
    match case? key, fallback with
    | some queue, _ =>
      Exec.emit (.caseMatched (σ.literal key)) >>= fun _ => drainWithin execute queue
    | none, some queue =>
      Exec.emit (.caseDefaulted (σ.literal key)) >>= fun _ => drainWithin execute queue
    | none, none => Exec.emit (.caseMissed (σ.literal key)) >>= fun _ => pure (.ok ())

theorem execute_succ (s : Switch σ (Task σ)) (fuel : Nat) :
    (Task.switch s).execute (fuel + 1) =
      dispatch (Task.execute fuel) s.selector s.case? s.fallback := by
  simp only [Task.execute, Task.perform, dispatch, choose]
  congr 1
  funext key
  cases s.case? key with
  | some queue => rfl
  | none => cases s.fallback <;> rfl

theorem execute_build_succ (selector : Scope σ → Answer σ σ.Key)
    (calls : List (Registering σ (Task σ))) (fuel : Nat) :
    (Task.switch (build selector calls)).execute (fuel + 1) =
      dispatch (Task.execute fuel) selector (lastCase? calls) (lastDefault? calls) := by
  rw [execute_succ, selector_build, fallback_build, funext (case?_build selector calls)]

/-- A task that comes down to a drain ends as that drain does. -/
theorem ends_iff_comesThrough {t : Task σ} {queue : Queue (Task σ)} {m m₁ : Machine σ}
    (h : ∀ fuel, t.execute (fuel + 1) m = drainWithin (Task.execute fuel) queue m₁)
    (result : TaskResult) (m' : Machine σ) :
    t.Ends m result m' ↔ ComesThrough queue m₁ result m' := by
  rw [← ends_drainWithin_iff]
  constructor
  · rintro ⟨fuel, hends⟩
    have hmore := (t.execute_rising fuel (fuel + 1) (by omega)).finished hends
    exact ⟨fuel, (h fuel).symm.trans hmore⟩
  · rintro ⟨fuel, hends⟩
    exact ⟨fuel + 1, (h fuel).trans hends⟩

section Ends

variable {selector : Scope σ → Answer σ σ.Key} {calls : List (Registering σ (Task σ))} {key : σ.Key}
  {queue : Queue (Task σ)} {m m₁ : Machine σ}

theorem ends_of_lastCase? (hask : Exec.ask selector m = .finished key m₁)
    (hcase : lastCase? calls key = some queue) (result : TaskResult) (m' : Machine σ) :
    (Task.switch (build selector calls)).Ends m result m' ↔
      ComesThrough queue (m₁.logged (.caseMatched (σ.literal key))) result m' := by
  refine ends_iff_comesThrough (fun fuel => ?_) result m'
  rw [execute_build_succ, dispatch, Exec.bind_of_finished hask]
  simp only [hcase]
  rfl

theorem ends_of_lastDefault? (hask : Exec.ask selector m = .finished key m₁)
    (hcase : lastCase? calls key = none) (hdefault : lastDefault? calls = some queue)
    (result : TaskResult) (m' : Machine σ) :
    (Task.switch (build selector calls)).Ends m result m' ↔
      ComesThrough queue (m₁.logged (.caseDefaulted (σ.literal key))) result m' := by
  refine ends_iff_comesThrough (fun fuel => ?_) result m'
  rw [execute_build_succ, dispatch, Exec.bind_of_finished hask]
  simp only [hcase, hdefault]
  rfl

end Ends

end Switch

/-! ## Chains of branches -/

/-- Tells of no event. -/
def Event.nothing (_ : Event) : Bool := false

theorem filter_nothing (events : List Event) : events.filter Event.nothing = [] := by
  induction events with
  | nil => rfl
  | cons e events ih => exact ih

/-- From `m`, given some more fuel, `x` does what `z` does from a machine that differs from `m` at
most in what is logged. -/
def Delays (x z : Nat → Exec σ α) (m : Machine σ) : Prop :=
  ∃ delay m₁, m₁.Resembles Event.nothing m ∧ ∀ fuel, x (fuel + delay) m = z fuel m₁

namespace Delays

variable {x y z : Nat → Exec σ α} {m m₁ : Machine σ}

theorem refl (x : Nat → Exec σ α) (m : Machine σ) : Delays x x m := ⟨0, m, .refl m, fun _ => rfl⟩

theorem later (delay : Nat) (h : Delays y z m₁) (hm : m₁.Resembles Event.nothing m)
    (hxy : ∀ fuel, x (fuel + delay) m = y fuel m₁) : Delays x z m := by
  obtain ⟨delay', m₂, hm₂, h⟩ := h
  refine ⟨delay' + delay, m₂, hm₂.trans hm, fun fuel => ?_⟩
  rw [← Nat.add_assoc, hxy, h]

theorem comesTo_iff (hx : Rising x) {delay : Nat} (h : ∀ fuel, x (fuel + delay) m = z fuel m₁)
    (o : Outcome σ α) : ComesTo x m o ↔ ComesTo (fun fuel _ => z fuel m₁) m o := by
  constructor
  · rintro ⟨hne, fuel, rfl⟩
    exact ⟨hne, fuel, (h fuel).symm.trans (hx fuel (fuel + delay) (by omega) m hne)⟩
  · rintro ⟨hne, fuel, rfl⟩
    exact ⟨hne, fuel + delay, h fuel⟩

theorem comeAlike (hx : Rising x) (hy : Rising y) (hz : ∀ fuel, (z fuel).Unread)
    (h : Delays x z m) (h' : Delays y z m) : ComeAlike Event.nothing x y m := by
  obtain ⟨delay, m₁, hm₁, h⟩ := h
  obtain ⟨delay', m₂, hm₂, h'⟩ := h'
  exact comeAlike_of_resembles (comesTo_iff hx h) (comesTo_iff hy h') fun fuel =>
    (hz fuel).resembles m₁ m₂ (hm₁.trans hm₂.symm)

end Delays

namespace Switch

/-- Whether the selector answers with the key. -/
def answers (selector : Scope σ → Answer σ σ.Key) (key : σ.Key) : Condition σ := fun scope =>
  let answer := selector scope
  ⟨decide (answer.value = key), answer.state, answer.remarks⟩

/-- The branch for one key. -/
def branch (selector : Scope σ → Answer σ σ.Key) (key : σ.Key) (queue otherwise : Queue (Task σ)) :
    Task σ :=
  .conditional (answers selector key) (.template queue) (.template otherwise)

/-- The queue that asks for the keys one after another: a branch for the first, with the chain of
the others behind its condition, and last the default. -/
def chain (selector : Scope σ → Answer σ σ.Key) (case? : σ.Key → Option (Queue (Task σ)))
    (fallback : Option (Queue (Task σ))) (id : σ.Key → TaskId) : List σ.Key → Queue (Task σ)
  | [] => fallback.getD .empty
  | key :: keys =>
    ⟨[⟨id key, branch selector key ((case? key).getD .empty)
      (chain selector case? fallback id keys)⟩]⟩

/-- The selector depends on the context only, and changes nothing. -/
def ReadsContext (selector : Scope σ → Answer σ σ.Key) (f : Context → σ.Key) : Prop :=
  ∀ scope, (selector scope).value = f scope.context ∧ (selector scope).state = scope.state

section Chain

variable (case? : σ.Key → Option (Queue (Task σ))) (fallback : Option (Queue (Task σ)))
  {selector : Scope σ → Answer σ σ.Key} {f : Context → σ.Key}

theorem ReadsContext.ask (h : ReadsContext selector f) (m : Machine σ) :
    ∃ m₁, m₁.Resembles Event.nothing m ∧
      Exec.ask selector m = .finished (f m.context) m₁ ∧
      ∀ key, Exec.ask (answers selector key) m = .finished (decide (f m.context = key)) m₁ := by
  obtain ⟨hvalue, hstate⟩ := h m.toScope
  let log := (selector m.toScope).remarks.foldl (fun log r => log.push (.remark r)) m.log
  refine ⟨{ m with log }, ⟨rfl, rfl, by rw [filter_nothing, filter_nothing]⟩, ?_, fun key => ?_⟩
  · simp only [Exec.ask, hvalue, hstate, log]
  · simp only [Exec.ask, answers, hvalue, hstate, log]

theorem execute_branch_succ (key : σ.Key) (queue otherwise : Queue (Task σ)) (fuel : Nat) :
    (branch selector key queue otherwise).execute (fuel + 1) =
      Exec.ask (answers selector key) >>= fun holds => Exec.emit (.branched holds) >>= fun _ =>
        drainWithin (Task.execute fuel) (if holds then queue else otherwise) := by
  simp only [Task.execute, branch, Task.perform]
  congr 1
  funext holds
  cases holds <;> rfl

/-- The queue that a switch with these cases drains for the answer. -/
def chosen (key : σ.Key) : Queue (Task σ) := ((case? key).or fallback).getD .empty

theorem dispatch_delays (h : ReadsContext selector f) (m : Machine σ) :
    Delays (fun fuel => dispatch (Task.execute fuel) selector case? fallback)
      (fun fuel => drainWithin (Task.execute fuel) (chosen case? fallback (f m.context))) m := by
  obtain ⟨m₁, hm₁, hask, -⟩ := h.ask m
  have hlogged (e : Event) : (m₁.logged e).Resembles Event.nothing m :=
    (Machine.Resembles.logged rfl m₁).trans hm₁
  unfold dispatch chosen
  cases hcase : case? (f m.context) with
  | some queue =>
    refine ⟨0, _, hlogged (.caseMatched (σ.literal (f m.context))), fun fuel => ?_⟩
    simp only [Exec.bind_of_finished hask, hcase]
    rfl
  | none =>
    cases hfallback : fallback with
    | some queue =>
      refine ⟨0, _, hlogged (.caseDefaulted (σ.literal (f m.context))), fun fuel => ?_⟩
      simp only [Exec.bind_of_finished hask, hcase]
      rfl
    | none =>
      refine ⟨0, _, hlogged (.caseMissed (σ.literal (f m.context))), fun fuel => ?_⟩
      simp only [Exec.bind_of_finished hask, hcase]
      rfl

/-- The queue that the chain for these keys drains for the answer. -/
def reached (keys : List σ.Key) (key : σ.Key) : Queue (Task σ) :=
  if key ∈ keys then (case? key).getD .empty else fallback.getD .empty

theorem reached_eq_chosen {keys : List σ.Key} (hkeys : ∀ key, key ∈ keys ↔ (case? key).isSome)
    (key : σ.Key) : reached case? fallback keys key = chosen case? fallback key := by
  unfold reached chosen
  split
  · rename_i h
    obtain ⟨queue, hqueue⟩ := Option.isSome_iff_exists.1 ((hkeys key).1 h)
    rw [hqueue]
    rfl
  · rename_i h
    rw [hkeys, Option.not_isSome_iff_eq_none] at h
    rw [h, Option.none_or]

theorem branch_delays (h : ReadsContext selector f) (id : σ.Key → TaskId) (key : σ.Key)
    (keys : List σ.Key) {m : Machine σ}
    (hrest : ∀ m₁ : Machine σ, m₁.context = m.context →
      Delays (fun fuel => drainWithin (Task.execute fuel) (chain selector case? fallback id keys))
        (fun fuel => drainWithin (Task.execute fuel)
          (reached case? fallback keys (f m.context))) m₁) :
    Delays
      (fun fuel => (branch selector key ((case? key).getD .empty)
        (chain selector case? fallback id keys)).execute fuel)
      (fun fuel => drainWithin (Task.execute fuel)
        (reached case? fallback (key :: keys) (f m.context))) m := by
  obtain ⟨m₁, hm₁, -, hask⟩ := h.ask m
  obtain ⟨m₂, hm₂⟩ : ∃ m₂, m₁.logged (.branched (decide (f m.context = key))) = m₂ := ⟨_, rfl⟩
  have hlike : m₂.Resembles Event.nothing m := by
    rw [← hm₂]
    exact (Machine.Resembles.logged rfl m₁).trans hm₁
  have hbranch (fuel : Nat) : (branch selector key ((case? key).getD .empty)
      (chain selector case? fallback id keys)).execute (fuel + 1) m =
        drainWithin (Task.execute fuel)
          (if decide (f m.context = key) then (case? key).getD .empty
            else chain selector case? fallback id keys) m₂ := by
    rw [execute_branch_succ, Exec.bind_of_finished (hask key), Exec.emit_bind, hm₂]
  by_cases hkey : f m.context = key
  · simp only [hkey, decide_true, if_true] at hbranch
    simp only [reached, hkey, List.mem_cons_self, if_true]
    exact .later 1 (.refl _ m₂) hlike hbranch
  · simp only [hkey, decide_false, Bool.false_eq_true, if_false] at hbranch
    have hreached : reached case? fallback (key :: keys) (f m.context) =
        reached case? fallback keys (f m.context) := by simp [reached, hkey]
    rw [hreached]
    exact .later 1 (hrest m₂ hlike.context) hlike hbranch

theorem chain_delays (h : ReadsContext selector f) (id : σ.Key → TaskId) (keys : List σ.Key)
    (m : Machine σ) :
    Delays (fun fuel => drainWithin (Task.execute fuel) (chain selector case? fallback id keys))
      (fun fuel => drainWithin (Task.execute fuel)
        (reached case? fallback keys (f m.context))) m := by
  induction keys generalizing m with
  | nil => exact .refl _ m
  | cons key keys ih =>
    have hgiven : (m.logged (.taskStarted none (id key) "conditional")).Resembles
        Event.nothing m := .logged rfl m
    have hbranch := branch_delays case? fallback h id key keys fun m₁ hm₁ =>
      hgiven.context ▸ hm₁ ▸ ih m₁
    refine .later 0 hbranch hgiven fun fuel => ?_
    have hcontrol : (branch selector key ((case? key).getD .empty)
      (chain selector case? fallback id keys)).IsControlFlow := trivial
    rw [chain, drainWithin_singleton fun hexec => hcontrol.error ⟨fuel, hexec⟩]
    rfl

end Chain

theorem execute_build_delays {selector : Scope σ → Answer σ σ.Key} {f : Context → σ.Key}
    (h : ReadsContext selector f) (calls : List (Registering σ (Task σ))) (m : Machine σ) :
    Delays (fun fuel => (Task.switch (build selector calls)).execute fuel)
      (fun fuel => drainWithin (Task.execute fuel)
        (chosen (lastCase? calls) (lastDefault? calls) (f m.context))) m := by
  refine .later 1 (dispatch_delays _ _ h m) (.refl m) fun fuel => ?_
  rw [execute_build_succ]

end Switch

/-- However a switch was built, it asks its selector once and drains the queue that the last call to
register the answer registered for it, or else the last default, and ends as the tasks of this queue
do in turn; if there is neither it succeeds and says so, on the context as it is. It has as many
cases as keys were registered. So calls with the same last registrations build switches that do the
same. And if the selector only reads the context, the switch comes to what the chain of branches
comes to that asks for each registered key, in any order, and has the default behind the last. -/
theorem switch_obeys_last_registration (selector : Scope σ → Answer σ σ.Key)
    (calls : List (Registering σ (Task σ))) :
    let task := Task.switch (Switch.build selector calls)
    (∀ fuel, task.execute (fuel + 1) =
      Switch.dispatch (Task.execute fuel) selector (lastCase? calls) (lastDefault? calls)) ∧
    (∀ key m m₁, Exec.ask selector m = .finished key m₁ → ∀ queue,
      (lastCase? calls key = some queue → ∀ result m', task.Ends m result m' ↔
        ComesThrough queue (m₁.logged (.caseMatched (σ.literal key))) result m') ∧
      (lastCase? calls key = none → lastDefault? calls = some queue →
        ∀ result m', task.Ends m result m' ↔
          ComesThrough queue (m₁.logged (.caseDefaulted (σ.literal key))) result m')) ∧
    (∀ key m m₁, Exec.ask selector m = .finished key m₁ → lastCase? calls key = none →
      lastDefault? calls = none →
      (∀ fuel, task.execute (fuel + 1) m =
        .finished (.ok ()) (m₁.logged (.caseMissed (σ.literal key)))) ∧
      (m₁.logged (.caseMissed (σ.literal key))).context = m.context ∧
      (Event.caseMissed (σ.literal key)).record? =
        some ⟨.info, "No matching case found for " ++ σ.literal key⟩) ∧
    (Switch.build selector calls).caseCount = (calls.flatMap Registering.keys).toFinset.card ∧
    (∀ calls', (∀ key, lastCase? calls key = lastCase? calls' key) →
      lastDefault? calls = lastDefault? calls' →
      ∀ fuel, task.execute fuel = (Task.switch (Switch.build selector calls')).execute fuel) ∧
    ∀ f, Switch.ReadsContext selector f → ∀ id keys,
      (∀ key, key ∈ keys ↔ key ∈ calls.flatMap Registering.keys) →
      (∀ m, ComeAlike Event.nothing (fun fuel => task.execute fuel)
        (fun fuel => drainWithin (Task.execute fuel)
          (Switch.chain selector (lastCase? calls) (lastDefault? calls) id keys)) m) ∧
      ∀ key rest, keys = key :: rest → ∀ m,
        ComeAlike Event.nothing (fun fuel => task.execute fuel)
          (fun fuel => (Switch.branch selector key ((lastCase? calls key).getD .empty)
            (Switch.chain selector (lastCase? calls) (lastDefault? calls) id rest)).execute fuel)
          m := by
  intro task
  refine ⟨Switch.execute_build_succ selector calls, fun key m m₁ hask queue =>
    ⟨Switch.ends_of_lastCase? hask, Switch.ends_of_lastDefault? hask⟩, ?_,
    Switch.caseCount_build selector calls, ?_, ?_⟩
  · intro key m m₁ hask hcase hdefault
    refine ⟨fun fuel => ?_, ?_, rfl⟩
    · rw [Switch.execute_build_succ, Switch.dispatch, Exec.bind_of_finished hask]
      simp only [hcase, hdefault]
      rfl
    · cases hask
      rfl
  · intro calls' hcases hdefault fuel
    cases fuel with
    | zero => rfl
    | succ fuel =>
      simp only [task, Switch.execute_build_succ, funext hcases, hdefault]
  · intro f hreads id keys hkeys
    have hregistered (key : σ.Key) : key ∈ keys ↔ (lastCase? calls key).isSome := by
      rw [hkeys, isSome_lastCase?_iff]
    have hunread (m : Machine σ) (fuel : Nat) :=
      drainWithin_unread fuel
        (Switch.chosen (lastCase? calls) (lastDefault? calls) (f m.context))
    constructor
    · intro m
      have hchain := Switch.chain_delays (lastCase? calls) (lastDefault? calls) hreads id keys m
      rw [Switch.reached_eq_chosen _ _ hregistered] at hchain
      exact Delays.comeAlike task.execute_rising (drainWithin_rising _) (hunread m)
        (Switch.execute_build_delays hreads calls m) hchain
    · rintro key rest rfl m
      have hrest (m₁ : Machine σ) (hm₁ : m₁.context = m.context) :=
        hm₁ ▸ Switch.chain_delays (lastCase? calls) (lastDefault? calls) hreads id rest m₁
      have hbranch := Switch.branch_delays _ _ hreads id key rest hrest
      rw [Switch.reached_eq_chosen _ _ hregistered] at hbranch
      exact Delays.comeAlike task.execute_rising (Task.execute_rising _) (hunread m)
        (Switch.execute_build_delays hreads calls m) hbranch

def fastSelector : Scope Nat → Answer Nat Key := fun scope =>
  .of scope (.bool (scope.context.contains "fast"))

def wearingOnce : Queue (Task Nat) := ⟨[⟨⟨0⟩, wearing⟩]⟩

def fastCalls : List (Registering Nat (Task Nat)) :=
  [.case (.bool true) .empty, .default .empty, .cases ⟨[(.bool true, wearingOnce)], by simp⟩]

/-- A machine with that count and that log, on a context that is fast. -/
def fastAt (count : Nat) (log : List Event) : Machine Nat :=
  ⟨⟨Context.empty.insert "fast" true, count⟩, .empty, ⟨log⟩⟩

/-- What becomes of the wearing leaf as the case of a switch. -/
def fastStint (count : Nat) : Stint Nat where
  handle := ⟨⟨0⟩, wearing⟩
  start := fastAt count [.caseMatched "true"]
  result := if count = 1 then .error (.plain "worn out") else .ok ()
  finish := fastAt (count + 1) [.caseMatched "true", .leafStarted "wearing"]
  events := [.leafStarted "wearing"]

/-- Two ways to build a switch with one case and a default; its case, drained to the end and up to a
failure; the chain for it; and a switch without a default that misses. -/
theorem fast_obeys_last_registration :
    let task := Task.switch (Switch.build fastSelector fastCalls)
    let matched := Event.caseMatched "true"
    let given := Event.taskStarted none ⟨0⟩ "wearing"
    let said := Event.leafStarted "wearing"
    (Switch.build fastSelector fastCalls).caseCount = 1 ∧
    task.Ends (fastAt 0 []) (.ok ()) (fastAt 1 [matched, given, said]) ∧
    task.Ends (fastAt 1 []) (.error (.execution (.taskFailed "wearing" (.plain "worn out"))))
      (fastAt 2 [matched, given, said]) ∧
    (∀ fuel, task.execute fuel = (Task.switch (Switch.build fastSelector
      [.case (.bool true) wearingOnce, .default .empty])).execute fuel) ∧
    (∀ m, ComeAlike Event.nothing (fun fuel => task.execute fuel)
      (fun fuel => (Switch.branch fastSelector (.bool true) wearingOnce .empty).execute fuel) m) ∧
    ∀ fuel, (Task.switch (Switch.build fastSelector [.case (.bool true) wearingOnce])).execute
        (fuel + 1) (wearingAt 0 []) =
      .finished (.ok ()) (wearingAt 0 [.caseMissed "false"]) := by
  intro task matched given said
  obtain ⟨-, hdrain, -, hcount, hsame, hchain⟩ :=
    switch_obeys_last_registration fastSelector fastCalls
  obtain ⟨-, -, hmiss, -⟩ :=
    switch_obeys_last_registration fastSelector [.case (.bool true) wearingOnce]
  have hask (count : Nat) :
      Exec.ask fastSelector (fastAt count []) = .finished (.bool true) (fastAt count []) := rfl
  have hends (count : Nat) := (hdrain _ _ _ (hask count) wearingOnce).1 rfl
  have hturn (count : Nat) : InTurn wearingOnce.handles (fastAt count [matched]) [fastStint count]
      (fastAt (count + 1) [matched, said]) := .cons ⟨rfl, rfl, ⟨2, rfl⟩, rfl⟩ .nil
  refine ⟨hcount.trans (by decide), ?_, ?_, hsame _ (fun key => ?_) rfl, fun m => ?_, ?_⟩
  · exact (hends 0 _ _).2 (.inl ⟨rfl, _, [fastStint 0], _, hturn 0,
      by simp [fastStint, Stint.failure?], rfl, rfl⟩)
  · exact (hends 1 _ _).2 (.inr ⟨_, _, rfl, _, [], [fastStint 1], _, _, rfl, hturn 1,
      ⟨[], _, rfl, rfl, List.forall_mem_nil _⟩, rfl, rfl⟩)
  · by_cases hkey : key = .bool true <;>
      simp [fastCalls, lastCase?, lastOf_cons, Registering.case?, lookup_cons_eq_ite, hkey]
  · have hreads : Switch.ReadsContext fastSelector fun context =>
        .bool (context.contains "fast") := fun _ => ⟨rfl, rfl⟩
    have hkeys (key : Key) : key ∈ [Key.bool true] ↔ key ∈ fastCalls.flatMap Registering.keys := by
      simp [fastCalls, Registering.keys]
    exact (hchain _ hreads (fun _ => ⟨7⟩) [.bool true] hkeys).2 _ _ rfl m
  · exact (hmiss (.bool false) (wearingAt 0 []) (wearingAt 0 []) rfl rfl rfl).1

end Workflow
