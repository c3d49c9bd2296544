import Mathlib.Algebra.Order.BigOperators.Group.List
import Mathlib.Algebra.Order.Ring.Int
import Workflow.Proofs.Context.Counting
import Workflow.Proofs.Context.History
import Workflow.Run
import Workflow.Task.Counter

/-! # Workflow.Proofs.Context.Totals

What counting under one key adds up to, whatever is written under other keys meanwhile.

* `Context.CountsAs`: the integer that counting starts from, for everything that may stand under a
  key.
* `clampedTotal`: a sum that is held within the 64-bit integers after each addition.
  `clampedTotal_of_oneSigned`: where all amounts have one sign it is enough to hold the whole sum
  there.
* `Context.CountsAs.perform`, `Context.CountsAs.performAll`: one write, and any number of them.
* `drain_counters`: a queue of counters counts by one, task after task.
* `counts_add_up_and_saturate`: both.
-/

namespace Workflow

/-! ## Sums that are held within bounds -/

/-- The total of the amounts from `v` on, held within the 64-bit integers after each of them. -/
def clampedTotal (v : Int) (amounts : List Int) : Int :=
  amounts.foldl (fun n amount => clamped (n + amount)) v

theorem clamped_clamped (i : Int) : clamped (clamped i) = clamped i := by
  simp only [clamped_eq]
  omega

theorem clamped_toInt (n : Int64) : clamped n.toInt = n.toInt := by
  have hle := n.le_toInt
  have hlt := n.toInt_lt
  rw [clamped_eq]
  omega

/-- No two of the amounts have different signs. -/
def OneSigned (amounts : List Int) : Prop := (∀ a ∈ amounts, 0 ≤ a) ∨ ∀ a ∈ amounts, a ≤ 0

theorem OneSigned.of_cons {amount : Int} {rest : List Int} (h : OneSigned (amount :: rest)) :
    OneSigned rest :=
  h.imp (fun h a ha => h a (List.mem_cons_of_mem amount ha))
    (fun h a ha => h a (List.mem_cons_of_mem amount ha))

/-- Sums of amounts with one sign leave the bounds once at most, and do not come back. -/
theorem clampedTotal_of_oneSigned {amounts : List Int} (h : OneSigned amounts) {v : Int}
    (hv : clamped v = v) : clampedTotal v amounts = clamped (v + amounts.sum) := by
  induction amounts generalizing v with
  | nil => simpa [clampedTotal] using hv.symm
  | cons amount rest ih =>
    have hrest : clampedTotal v (amount :: rest) = clamped (clamped (v + amount) + rest.sum) :=
      ih h.of_cons (clamped_clamped _)
    rw [hrest, List.sum_cons]
    simp only [clamped_eq] at hv ⊢
    rcases h with h | h
    · obtain ⟨hamount, h⟩ := List.forall_mem_cons.1 h
      have hsum : 0 ≤ rest.sum := List.sum_nonneg h
      omega
    · obtain ⟨hamount, h⟩ := List.forall_mem_cons.1 h
      have hsum : rest.sum ≤ 0 := by simpa using List.sum_le_card_nsmul rest 0 h
      omega

/-! ## Writes -/

namespace Context

/-- The integer that counting starts from where `held` stands under the key. -/
inductive CountsAs : Option Value → Int64 → Prop where
  | missing : CountsAs none 0
  | null : CountsAs (some .null) 0
  | bool (b : Bool) : CountsAs (some (.bool b)) 0
  | int (n : Int64) : CountsAs (some (.int n)) n
  | float (x : Double) : CountsAs (some (.float x)) x.truncate
  | number {text : String} {n : Int64} (h : leadingInt? text.toList = some n) :
    CountsAs (some (.text text)) n
  | words {text : String} (h : leadingInt? text.toList = none) : CountsAs (some (.text text)) 0
  | list (items : List Value) : CountsAs (some (.list items)) 0
  | map (entries : Table Value) : CountsAs (some (.map entries)) 0

variable {c : Context} {key : String} {v : Int64} {writes : List Write}

theorem CountsAs.countOf_eq {held : Option Value} (h : CountsAs held v) : countOf held = v := by
  cases h with
  | number h => simp [countOf, h]
  | words h => simp [countOf, h]
  | _ => rfl

namespace Write

/-- Nothing is done under the key but counting. -/
def OnlyCounts (key : String) (w : Write) : Prop :=
  w.key = key → ∃ amount, w = .increment key amount

/-- What is counted by under the key. -/
def amount? (key : String) : Write → Option Int
  | increment k amount => if k = key then some amount.toInt else none
  | _ => none

theorem amount?_of_ne {w : Write} (h : w.key ≠ key) : w.amount? key = none := by
  cases w with
  | increment k amount => exact if_neg h
  | _ => rfl

/-- Other keys are left alone. -/
theorem get?_perform_of_ne {w : Write} (h : key ≠ w.key) :
    (w.perform c).2.get? key = c.get? key := by
  rw [w.get?_perform c, if_neg h]

theorem get?_perform_increment (c : Context) (key : String) (amount : Int64) :
    ((increment key amount).perform c).2.get? key = some (.int (c.incremented key amount)) :=
  get?_insert_self c key _

end Write

/-- The amounts that are counted by under the key. -/
def amounts (key : String) (writes : List Write) : List Int := writes.filterMap (Write.amount? key)

theorem CountsAs.toInt_incremented (h : CountsAs (c.get? key) v) (amount : Int64) :
    (c.incremented key amount).toInt = clamped (v.toInt + amount.toInt) := by
  rw [incremented, h.countOf_eq, toInt_saturatingAdd]

/-- One write goes on counting from what the writes before it have come to. -/
theorem CountsAs.perform (h : CountsAs (c.get? key) v) {w : Write} (hw : w.OnlyCounts key) :
    ∃ n, CountsAs ((w.perform c).2.get? key) n ∧
      n.toInt = clampedTotal v.toInt (w.amount? key).toList := by
  by_cases hkey : w.key = key
  · obtain ⟨amount, rfl⟩ := hw hkey
    rw [Write.get?_perform_increment]
    refine ⟨_, .int _, ?_⟩
    rw [h.toInt_incremented, Write.amount?, if_pos rfl]
    rfl
  · rw [Write.get?_perform_of_ne (Ne.symm hkey), Write.amount?_of_ne hkey]
    exact ⟨v, h, rfl⟩

theorem CountsAs.performAll (h : CountsAs (c.get? key) v) (hw : ∀ w ∈ writes, w.OnlyCounts key) :
    ∃ n, CountsAs ((c.performAll writes).get? key) n ∧
      n.toInt = clampedTotal v.toInt (amounts key writes) := by
  induction writes generalizing c v with
  | nil => exact ⟨v, h, rfl⟩
  | cons w rest ih =>
    obtain ⟨hfirst, hrest⟩ := List.forall_mem_cons.1 hw
    obtain ⟨n, hn, hstep⟩ := h.perform hfirst
    obtain ⟨n', hn', htotal⟩ := ih hn hrest
    refine ⟨n', hn', ?_⟩
    have hamounts : amounts key (w :: rest) = (w.amount? key).toList ++ amounts key rest := by
      cases hamount : w.amount? key <;> simp [amounts, hamount]
    rw [htotal, hstep, hamounts, clampedTotal, clampedTotal, clampedTotal, List.foldl_append]

theorem get?_performAll_of_ne (h : ∀ w ∈ writes, key ≠ w.key) :
    (c.performAll writes).get? key = c.get? key := by
  induction writes generalizing c with
  | nil => rfl
  | cons w rest ih =>
    obtain ⟨hw, hrest⟩ := List.forall_mem_cons.1 h
    exact (ih hrest).trans (Write.get?_perform_of_ne hw)

/-- A count after other writes. What stands under the key before does not matter but for the integer
that it counts as. -/
theorem CountsAs.toInt_counted (h : CountsAs (c.get? key) v) (hw : ∀ w ∈ writes, w.OnlyCounts key)
    (amount : Int64) : ((c.performAll writes).incremented key amount).toInt =
      clampedTotal v.toInt (amounts key writes ++ [amount.toInt]) := by
  obtain ⟨n, hn, htotal⟩ := h.performAll hw
  rw [hn.toInt_incremented, htotal, clampedTotal, clampedTotal, List.foldl_concat]

/-- Counting by one, over and over. -/
theorem CountsAs.performAll_replicate (h : CountsAs (c.get? key) v) (k : Nat) :
    ∃ n, (c.performAll (List.replicate (k + 1) (.increment key 1))).get? key = some (.int n) ∧
      n.toInt = min (v.toInt + (k + 1 : Nat)) Int64.maxValue.toInt := by
  have hones : ∀ w ∈ List.replicate k (Write.increment key 1), w.OnlyCounts key :=
    fun w hw _ => ⟨1, List.eq_of_mem_replicate hw⟩
  have hamounts : amounts key (List.replicate k (.increment key 1)) = List.replicate k 1 := by
    simp [amounts, Write.amount?]
  have hsigned : OneSigned (List.replicate (k + 1) 1) :=
    .inl fun a ha => List.eq_of_mem_replicate ha ▸ Int.one_nonneg
  have htotal := h.toInt_counted hones 1
  rw [hamounts, Int64.toInt_one, ← List.replicate_succ',
    clampedTotal_of_oneSigned hsigned (clamped_toInt v), List.sum_replicate_int] at htotal
  rw [List.replicate_succ', Context.performAll, List.foldl_concat]
  refine ⟨_, Write.get?_perform_increment _ key 1, htotal.trans ?_⟩
  have hle := v.le_toInt
  rw [clamped_eq, Int64.toInt_maxValue]
  omega

end Context

/-! ## Counters -/

section Counters

variable {σ : Domain}

theorem Task.execute_counter (name key : String) (fuel : Nat) (m : Machine σ) : ∃ log,
    (Task.counter name key).execute (fuel + 1) m =
      .finished (.ok ()) { m with context := m.context.increment key 1, log } :=
  ⟨_, rfl⟩

/-- All that a queue of counters does besides logging is to count by one for each of them. -/
theorem drain_counters (policy : Policy) (origin : Option ContainerId) (fuel : Nat) (key : String)
    {handles : List (Handle (Task σ))}
    (h : ∀ handle ∈ handles, ∃ name, handle.task = .counter name key) (m : Machine σ) : ∃ log,
    drain (Task.execute (fuel + 1)) policy origin handles m =
      .finished ⟨.ok ⟨handles.length, []⟩, .empty⟩
        { m with
          context := m.context.performAll (List.replicate handles.length (.increment key 1))
          log } := by
  induction handles generalizing m with
  | nil => exact ⟨m.log, rfl⟩
  | cons handle rest ih =>
    obtain ⟨⟨name, hname⟩, hrest⟩ := List.forall_mem_cons.1 h
    obtain ⟨log, hcount⟩ := Task.execute_counter name key fuel
      (m.logged (.taskStarted origin handle.id handle.task.name))
    rw [← hname] at hcount
    rw [drain_of_success policy hcount]
    obtain ⟨log', hdrain⟩ := ih hrest { m with context := m.context.increment key 1, log }
    have hcounted : Drained.after .ofSuccess ⟨.ok ⟨rest.length, []⟩, .empty⟩ =
        (⟨.ok ⟨rest.length + 1, []⟩, .empty⟩ : Drained σ) := by
      rw [Nat.add_comm]
      rfl
    exact ⟨log', (Exec.bind_of_finished hdrain).trans (congrArg (Outcome.finished · _) hcounted)⟩

end Counters

/-- However other keys are written to meanwhile, every count under a key answers with the integer
that stands there afterwards, leaves the other keys alone and is the total of the amounts so far,
held within the 64-bit integers after each of them. Where the amounts have one sign it is their sum,
held there once. A queue of counters comes to its end and has counted by its size, at most up to the
largest integer. -/
theorem counts_add_up_and_saturate {σ : Domain} (c : Context) (key : String) (v : Int64)
    (hv : Context.CountsAs (c.get? key) v) :
    (∀ writes : List Context.Write, (∀ w ∈ writes, w.OnlyCounts key) → ∀ amount : Int64,
      let earlier := c.performAll writes
      let later := (Context.Write.increment key amount).perform earlier
      let amounts := Context.amounts key writes ++ [amount.toInt]
      ∃ n, later.1 = .count n ∧ later.2.get? key = some (.int n) ∧
        (∀ other, other ≠ key → later.2.get? other = earlier.get? other) ∧
        n.toInt = clampedTotal v.toInt amounts ∧
        (OneSigned amounts → n.toInt = clamped (v.toInt + amounts.sum))) ∧
    ∀ (queue : Queue (Task σ)) (policy : Policy) (m : Machine σ) (fuel : Nat), m.context = c →
      0 < queue.size → (∀ handle ∈ queue.handles, ∃ name, handle.task = .counter name key) →
      ∃ m' n, queue.execute (fuel + 1) policy m = .finished ⟨.ok ⟨queue.size, []⟩, .empty⟩ m' ∧
        m'.context.get? key = some (.int n) ∧
        n.toInt = min (v.toInt + queue.size) Int64.maxValue.toInt ∧
        ∀ other, other ≠ key → m'.context.get? other = c.get? other := by
  refine ⟨fun writes hw amount => ?_, fun queue policy m fuel hm hsize htasks => ?_⟩
  · intro earlier later amounts
    have htotal := hv.toInt_counted hw amount
    refine ⟨_, rfl, Context.Write.get?_perform_increment .., fun other hne =>
      Context.Write.get?_perform_of_ne hne, htotal, fun hsigned => ?_⟩
    exact htotal.trans (clampedTotal_of_oneSigned hsigned (clamped_toInt v))
  · obtain ⟨log, hdrain⟩ := drain_counters policy none fuel key htasks m
    obtain ⟨k, hk⟩ : ∃ k, queue.handles.length = k + 1 := ⟨_, (Nat.sub_add_cancel hsize).symm⟩
    subst hm
    obtain ⟨n, hn, htotal⟩ := hv.performAll_replicate k
    rw [← hk] at hn htotal
    refine ⟨_, n, hdrain, hn, htotal, fun other hne => Context.get?_performAll_of_ne fun w hw => ?_⟩
    rw [List.eq_of_mem_replicate hw]
    exact hne

/-- One seat below the largest integer, as a text. -/
def nearlyFull : Context := Context.empty.insert "seats" " 9223372036854775806 seats"

def seatWrites : List Context.Write := [.increment "seats" 3, .put "row" .null, .increment "row" 7]

/-- Two more seats are one too many, whatever becomes of the row. Seats that are given back then
come off the largest integer. -/
theorem seats_add_up_and_saturate :
    (∀ w ∈ seatWrites, w.OnlyCounts "seats") ∧
    (∃ n, ((Context.Write.increment "seats" 2).perform (nearlyFull.performAll seatWrites)).1 =
      .count n ∧ n = Int64.maxValue) ∧
    (∃ n, ((Context.Write.increment "seats" (-5)).perform (nearlyFull.performAll seatWrites)).1 =
      .count n ∧ n = Int64.maxValue - 5) ∧
    ∃ m' n, (⟨[⟨⟨0⟩, .counter "first" "seats"⟩, ⟨⟨1⟩, .counter "second" "seats"⟩]⟩ :
        Queue (Task Unit)).execute 1 .keepGoing ⟨⟨nearlyFull, ()⟩, .empty, #[]⟩ =
        .finished ⟨.ok ⟨2, []⟩, .empty⟩ m' ∧
      m'.context.get? "seats" = some (.int n) ∧ n = Int64.maxValue := by
  have hseats : Context.CountsAs (nearlyFull.get? "seats") 9223372036854775806 := by
    rw [nearlyFull, Context.get?_insert_self]
    exact .number (by decide)
  have hwrites : ∀ w ∈ seatWrites, w.OnlyCounts "seats" := by
    simp [seatWrites, Context.Write.OnlyCounts, Context.Write.key]
  obtain ⟨hcount, hcounters⟩ := counts_add_up_and_saturate (σ := Unit) nearlyFull "seats" _ hseats
  refine ⟨hwrites, ?_, ?_, ?_⟩
  · obtain ⟨n, hn, -, -, -, hsum⟩ := hcount seatWrites hwrites 2
    refine ⟨n, hn, Int64.toInt_inj.1 ((hsum (.inl ?_)).trans ?_)⟩ <;> decide
  · obtain ⟨n, hn, -, -, htotal, -⟩ := hcount seatWrites hwrites (-5)
    refine ⟨n, hn, Int64.toInt_inj.1 (htotal.trans ?_)⟩
    decide
  · obtain ⟨m', n, hrun, hn, hsum, -⟩ := hcounters
      ⟨[⟨⟨0⟩, .counter "first" "seats"⟩, ⟨⟨1⟩, .counter "second" "seats"⟩]⟩ .keepGoing
      ⟨⟨nearlyFull, ()⟩, .empty, #[]⟩ 0 rfl (by decide)
      (by simpa using ⟨⟨"first", rfl⟩, "second", rfl⟩)
    exact ⟨m', n, hrun, hn, Int64.toInt_inj.1 (hsum.trans (by decide))⟩

end Workflow
