import Workflow.Proofs.Container.History

/-! # Workflow.Proofs.Container.Ledger

The books of a container. Its queues are numbered in the order in which they were added, and every
task that a run takes out is booked under the number of its queue. `Ledger` says that the books
balance from one machine to another: of each queue, what was taken and what is left is what it held.
A run has a queue in hand that is not among those that wait; the runs within it do not see it.

* `Agree`: two lists of numbered entries that are the same under each number.
* `Ledger.trans`: books are kept step by step.
* `Ledger.hold`: what keeps the books with nothing in hand keeps them with a queue of a lower number
  in hand.
* `Ledger.of_hand`: a queue is taken out, and what is left of it goes back.
-/

namespace Workflow

variable {σ : Domain} {τ α : Type}

/-- Under every number the entries are the same, in the same order. -/
def Agree (l l' : List (α × Nat)) : Prop := ∀ j, l.filter (·.2 == j) = l'.filter (·.2 == j)

namespace Agree

theorem refl (l : List (α × Nat)) : Agree l l := fun _ => rfl

theorem trans {l₁ l₂ l₃ : List (α × Nat)} (h₁ : Agree l₁ l₂) (h₂ : Agree l₂ l₃) : Agree l₁ l₃ :=
  fun j => (h₁ j).trans (h₂ j)

theorem append {l₁ l₂ l₁' l₂' : List (α × Nat)} (h₁ : Agree l₁ l₁') (h₂ : Agree l₂ l₂') :
    Agree (l₁ ++ l₂) (l₁' ++ l₂') := by
  intro j
  rw [List.filter_append, List.filter_append, h₁ j, h₂ j]

theorem mem {l l' : List (α × Nat)} (h : Agree l l') {p : α × Nat} (hp : p ∈ l') : p ∈ l := by
  have hmem : p ∈ l'.filter (·.2 == p.2) := by simp [hp]
  rw [← h p.2] at hmem
  exact (List.mem_filter.1 hmem).1

/-- Entries with low numbers and entries with high numbers may change places. -/
theorem swap {lo : Nat} {low high : List (α × Nat)} (hlow : ∀ p ∈ low, p.2 < lo)
    (hhigh : ∀ p ∈ high, lo ≤ p.2) : Agree (low ++ high) (high ++ low) := by
  intro j
  rw [List.filter_append, List.filter_append]
  rcases Nat.lt_or_ge j lo with hj | hj
  · have hnone : high.filter (·.2 == j) = [] := by
      refine List.filter_eq_nil_iff.2 fun p hp hpj => ?_
      have := hhigh p hp
      have := beq_iff_eq.1 hpj
      omega
    rw [hnone, List.append_nil, List.nil_append]
  · have hnone : low.filter (·.2 == j) = [] := by
      refine List.filter_eq_nil_iff.2 fun p hp hpj => ?_
      have := hlow p hp
      have := beq_iff_eq.1 hpj
      omega
    rw [hnone, List.append_nil, List.nil_append]

end Agree

/-! ## Numbered queues -/

/-- The tasks of a queue under its number. -/
def entries (number : Nat) (handles : List (Handle τ)) : List (Handle τ × Nat) :=
  handles.map (·, number)

/-- The tasks of numbered queues, each under the number of its queue. -/
def spread (queues : List (Queue τ × Nat)) : List (Handle τ × Nat) :=
  queues.flatMap fun p => entries p.2 p.1.handles

@[simp] theorem spread_cons (queue : Queue τ) (number : Nat) (queues : List (Queue τ × Nat)) :
    spread ((queue, number) :: queues) = entries number queue.handles ++ spread queues := rfl

@[simp] theorem spread_append (queues₁ queues₂ : List (Queue τ × Nat)) :
    spread (queues₁ ++ queues₂) = spread queues₁ ++ spread queues₂ := List.flatMap_append

theorem mem_spread {queues : List (Queue τ × Nat)} {entry : Handle τ × Nat}
    (h : entry ∈ spread queues) : ∃ p ∈ queues, p.2 = entry.2 := by
  obtain ⟨p, hp, hentry⟩ := List.mem_flatMap.1 h
  obtain ⟨handle, -, rfl⟩ := List.mem_map.1 hentry
  exact ⟨p, hp, rfl⟩

theorem snd_of_mem_entries {number : Nat} {handles : List (Handle τ)} {entry : Handle τ × Nat}
    (h : entry ∈ entries number handles) : entry.2 = number := by
  obtain ⟨handle, -, rfl⟩ := List.mem_map.1 h
  rfl

/-- What was taken from the queue with that number, in order. -/
def takenFrom (number : Nat) (taken : List (Handle τ × Nat)) : List (Handle τ) :=
  (taken.filter (·.2 == number)).map Prod.fst

/-- What there is of the queue with that number. -/
def contentOf (number : Nat) (queues : List (Queue τ × Nat)) : List (Handle τ) :=
  (queues.filter (·.2 == number)).flatMap (·.1.handles)

theorem takenFrom_append (number : Nat) (taken₁ taken₂ : List (Handle τ × Nat)) :
    takenFrom number (taken₁ ++ taken₂) = takenFrom number taken₁ ++ takenFrom number taken₂ := by
  simp only [takenFrom, List.filter_append, List.map_append]

theorem takenFrom_entries (number other : Nat) (handles : List (Handle τ)) :
    takenFrom number (entries other handles) = if other = number then handles else [] := by
  simp only [takenFrom, entries, List.filter_map, List.map_map, Function.comp_def, List.map_id']
  by_cases h : other = number <;> simp [h]

theorem takenFrom_spread (number : Nat) (queues : List (Queue τ × Nat)) :
    takenFrom number (spread queues) = contentOf number queues := by
  induction queues with
  | nil => rfl
  | cons first rest ih =>
    obtain ⟨queue, other⟩ := first
    rw [spread_cons, takenFrom_append, takenFrom_entries, ih]
    by_cases h : other = number <;> simp [contentOf, h]

/-- Numbered one by one, the queues are found under their positions. -/
theorem contentOf_zipIdx (queues : List (Queue τ)) (k number : Nat) :
    contentOf (k + number) (queues.zipIdx k) = (queues[number]?.getD .empty).handles := by
  induction queues generalizing k number with
  | nil => rfl
  | cons queue rest ih =>
    cases number with
    | zero =>
      have hnone : (rest.zipIdx (k + 1)).filter (·.2 == k) = [] := by
        refine List.filter_eq_nil_iff.2 fun p hp hpk => ?_
        have := List.le_snd_of_mem_zipIdx hp
        have := beq_iff_eq.1 hpk
        omega
      simp [contentOf, hnone]
    | succ number =>
      rw [List.getElem?_cons_succ, ← ih (k + 1) number, List.zipIdx_cons, contentOf, contentOf]
      have hne : (k == k + (number + 1)) = false := by
        rw [beq_eq_false_iff_ne]
        omega
      rw [List.filter_cons_of_neg (by simp [hne]), Nat.add_right_comm]
      rfl

/-- The queues of the container under increasing numbers from `lo` on and below `n`. -/
structure Waiting (id : ContainerId) (m : Machine σ) (lo n : Nat)
    (waiting : List (Queue (Task σ) × Nat)) : Prop where
  queues : waiting.map Prod.fst = (m.store.container id).queues
  increasing : waiting.Pairwise (·.2 < ·.2)
  low : ∀ p ∈ waiting, lo ≤ p.2
  high : ∀ p ∈ waiting, p.2 < n

namespace Waiting

variable {id : ContainerId} {m m' : Machine σ} {lo n number : Nat} {queue : Queue (Task σ)}
  {waiting : List (Queue (Task σ) × Nat)}

/-- To begin with, the numbers are the positions. -/
theorem zipIdx (id : ContainerId) (m : Machine σ) :
    Waiting id m 0 (m.store.container id).queues.length (m.store.container id).queues.zipIdx := by
  refine ⟨List.zipIdx_map_fst .., ?_, fun _ _ => Nat.zero_le _, ?_⟩
  · have hnumbers : ((m.store.container id).queues.zipIdx.map Prod.snd).Pairwise (· < ·) := by
      rw [List.zipIdx_map_snd]
      exact List.pairwise_lt_range'
    exact List.pairwise_map.1 hnumbers
  · intro p hp
    exact List.snd_lt_of_mem_zipIdx hp

theorem congr (h : Waiting id m lo n waiting)
    (hqueues : (m'.store.container id).queues = (m.store.container id).queues) :
    Waiting id m' lo n waiting :=
  ⟨h.queues.trans hqueues.symm, h.increasing, h.low, h.high⟩

theorem mono {lo' : Nat} (h : Waiting id m lo n waiting) (hle : lo' ≤ lo) :
    Waiting id m lo' n waiting := by
  refine ⟨h.queues, h.increasing, ?_, h.high⟩
  intro p hp
  exact Nat.le_trans hle (h.low p hp)

/-- A queue that is put behind the others gets the next number. -/
theorem add (h : Waiting id m lo n waiting) (hle : lo ≤ n)
    (hqueues : (m'.store.container id).queues = (m.store.container id).queues ++ [queue]) :
    Waiting id m' lo (n + 1) (waiting ++ [(queue, n)]) := by
  refine ⟨?_, ?_, ?_, ?_⟩
  · rw [hqueues, List.map_append, h.queues]
    rfl
  · refine List.pairwise_append.2 ⟨h.increasing, List.pairwise_singleton .., ?_⟩
    intro p hp q hq
    rw [List.mem_singleton.1 hq]
    exact h.high p hp
  · intro p hp
    rcases List.mem_append.1 hp with hp | hp
    · exact h.low p hp
    · rw [List.mem_singleton.1 hp]
      exact hle
  · intro p hp
    rcases List.mem_append.1 hp with hp | hp
    · exact Nat.lt_succ_of_lt (h.high p hp)
    · rw [List.mem_singleton.1 hp]
      exact Nat.lt_succ_self n

/-- The first queue is taken out. -/
theorem take {rest : List (Queue (Task σ))} (h : Waiting id m lo n waiting) (hid : m.store.Has id)
    (hqueues : (m.store.container id).queues = queue :: rest) :
    ∃ number behind, waiting = (queue, number) :: behind ∧ lo ≤ number ∧ number < n ∧
      Waiting id (m.withQueues id rest) (number + 1) n behind := by
  obtain ⟨first, behind, rfl, rfl, hrest⟩ := List.map_eq_cons_iff.1 (h.queues.trans hqueues)
  have hincreasing := List.pairwise_cons.1 h.increasing
  have hlow := h.low first List.mem_cons_self
  have hhigh := h.high first List.mem_cons_self
  refine ⟨first.2, behind, rfl, hlow, hhigh, ?_, hincreasing.2, hincreasing.1, ?_⟩
  · simp only [Machine.withQueues, Store.container_modifyContainer_self hid, hrest]
  · intro p hp
    exact h.high p (List.mem_cons_of_mem _ hp)

/-- A queue with a lower number is put back in front. -/
theorem giveBack (h : Waiting id m (number + 1) n waiting) (hnumber : number < n)
    (hqueues : (m'.store.container id).queues = queue :: (m.store.container id).queues) :
    Waiting id m' number n ((queue, number) :: waiting) := by
  refine ⟨?_, List.pairwise_cons.2 ⟨h.low, h.increasing⟩, ?_, ?_⟩
  · rw [hqueues, List.map_cons, h.queues]
  · intro p hp
    rcases List.mem_cons.1 hp with rfl | hp
    · exact Nat.le_refl number
    · exact Nat.le_of_succ_le (h.low p hp)
  · intro p hp
    rcases List.mem_cons.1 hp with rfl | hp
    · exact hnumber
    · exact h.high p hp

end Waiting

/-- The queue in hand and the queues `before` have become what is left in hand and the queues
`after`, and the tasks that are gone were taken. A queue from which a task was taken waits only
while it holds another. -/
structure Balance (number : Nat) (hand : List (Handle τ)) (before : List (Queue τ × Nat))
    (taken : List (Handle τ × Nat)) (left : List (Handle τ)) (after : List (Queue τ × Nat)) :
    Prop where
  agree : Agree (entries number hand ++ spread before)
    (taken ++ (entries number left ++ spread after))
  untouched : ∀ p ∈ after, p.1.isEmpty → p ∈ before

theorem Balance.trans {number : Nat} {hand mid left : List (Handle τ)}
    {before between after more : List (Queue τ × Nat)} {taken₁ taken₂ : List (Handle τ × Nat)}
    (h₁ : Balance number hand before taken₁ mid between)
    (h₂ : Balance number mid (between ++ more) taken₂ left after) :
    Balance number hand (before ++ more) (taken₁ ++ taken₂) left after := by
  refine ⟨?_, fun p hp hempty => ?_⟩
  · have h₁ := h₁.agree.append (.refl (spread more))
    have h₂ := (Agree.refl taken₁).append h₂.agree
    simp only [spread_append, List.append_assoc] at h₁ h₂ ⊢
    exact h₁.trans h₂
  · rcases List.mem_append.1 (h₂.untouched p hp hempty) with hp | hp
    · exact List.mem_append_left _ (h₁.untouched p hp hempty)
    · exact List.mem_append_right _ hp

/-- With nothing in hand, what a queue held is what was taken from it and what there still is. -/
theorem Balance.contentOf_eq {number : Nat} {before after : List (Queue τ × Nat)}
    {taken : List (Handle τ × Nat)} (h : Balance number [] before taken [] after) (j : Nat) :
    contentOf j before = takenFrom j taken ++ contentOf j after := by
  have hj := congrArg (List.map Prod.fst) (h.agree j)
  change takenFrom j (spread before) = takenFrom j (taken ++ spread after) at hj
  rw [takenFrom_append, takenFrom_spread, takenFrom_spread] at hj
  exact hj

/-- What is left of a queue that was in hand, if there is anything, waits again under its number. -/
theorem Balance.giveBack {number : Nat} {queue left : Queue τ}
    {before after : List (Queue τ × Nat)} {taken : List (Handle τ × Nat)}
    (h : Balance number queue.handles before taken left.handles after) (other : Nat) :
    Balance other [] ((queue, number) :: before) taken []
      (if left.isEmpty then after else (left, number) :: after) := by
  have huntouched : ∀ p ∈ after, p.1.isEmpty → p ∈ (queue, number) :: before := by
    intro p hp hempty
    exact List.mem_cons_of_mem _ (h.untouched p hp hempty)
  split
  · rename_i hleft
    have hagree := h.agree
    rw [List.isEmpty_iff.1 hleft] at hagree
    exact ⟨hagree, huntouched⟩
  · rename_i hleft
    refine ⟨h.agree, ?_⟩
    intro p hp hempty
    rcases List.mem_cons.1 hp with rfl | hp
    · exact absurd hempty hleft
    · exact huntouched p hp hempty

/-- From `m` to `m'` the books of the container balance, whatever numbers its queues have, if the
one in hand has a lower number than those that wait. The queues that were added get the next
numbers, and the tasks that were taken are the ones that the events tell of. -/
structure Ledger (id : ContainerId) (m : Machine σ) (hand : List (Handle (Task σ)))
    (m' : Machine σ) (left : List (Handle (Task σ))) (events : List Event)
    (added : List (Queue (Task σ))) : Prop where
  added_eq : addedTo id events = added.map Queue.ids
  suffix : left <:+ hand
  kept : ∀ {number lo n : Nat} {waiting : List (Queue (Task σ) × Nat)},
    (hand ≠ [] → number < lo) → lo ≤ n → Waiting id m lo n waiting →
    ∃ taken after, Waiting id m' lo (n + added.length) after ∧
      Balance number hand (waiting ++ added.zipIdx n) taken left after ∧
      startedBy id events = taken.map (·.1.id)

namespace Ledger

variable {id : ContainerId} {m m₁ m₂ m' : Machine σ} {hand mid left : List (Handle (Task σ))}
  {l₁ l₂ events : List Event} {added₁ added₂ added : List (Queue (Task σ))}

theorem trans (h₁ : Ledger id m hand m₁ mid l₁ added₁) (h₂ : Ledger id m₁ mid m₂ left l₂ added₂) :
    Ledger id m hand m₂ left (l₁ ++ l₂) (added₁ ++ added₂) := by
  refine ⟨?_, h₂.suffix.trans h₁.suffix, fun {number lo n waiting} hnumber hle hwaiting => ?_⟩
  · rw [addedTo_append, h₁.added_eq, h₂.added_eq, List.map_append]
  · obtain ⟨taken₁, between, hbetween, hbalance₁, hstarted₁⟩ := h₁.kept hnumber hle hwaiting
    have hmid : mid ≠ [] → number < lo := fun hmid => hnumber fun hhand => hmid <| by
      rw [hhand] at h₁
      exact List.suffix_nil.1 h₁.suffix
    obtain ⟨taken₂, after, hafter, hbalance₂, hstarted₂⟩ :=
      h₂.kept hmid (Nat.le_trans hle (Nat.le_add_right ..)) hbetween
    refine ⟨taken₁ ++ taken₂, after, ?_, ?_, ?_⟩
    · rw [List.length_append, ← Nat.add_assoc]
      exact hafter
    · rw [List.zipIdx_append, ← List.append_assoc]
      exact hbalance₁.trans hbalance₂
    · rw [startedBy_append, hstarted₁, hstarted₂, List.map_append]

/-- Nothing happened to the queues. -/
theorem of_calm (hqueues : (m'.store.container id).queues = (m.store.container id).queues)
    (hadded : addedTo id events = []) (hstarted : startedBy id events = []) :
    Ledger id m hand m' hand events [] := by
  refine ⟨hadded, List.suffix_rfl, fun {number lo n waiting} _ _ hwaiting =>
    ⟨[], waiting, hwaiting.congr hqueues, ⟨?_, ?_⟩, hstarted⟩⟩
  · rw [List.zipIdx_nil, List.append_nil]
    exact .refl _
  · rw [List.zipIdx_nil, List.append_nil]
    exact fun _ hp _ => hp

/-- A queue is put behind those that wait. -/
theorem of_addQueue (queue : Queue (Task σ))
    (hqueues : (m'.store.container id).queues = (m.store.container id).queues ++ [queue])
    (hadded : addedTo id events = [queue.ids]) (hstarted : startedBy id events = []) :
    Ledger id m hand m' hand events [queue] := by
  refine ⟨hadded, List.suffix_rfl, fun {number lo n waiting} _ hle hwaiting => ?_⟩
  exact ⟨[], waiting ++ [(queue, n)], hwaiting.add hle hqueues, ⟨.refl _, fun _ hp _ => hp⟩,
    hstarted⟩

/-- The first task in hand is given out. -/
theorem of_start (handle : Handle (Task σ)) (rest : List (Handle (Task σ))) (name : String) :
    Ledger id m (handle :: rest) (m.logged (.taskStarted (some id) handle.id name)) rest
      [.taskStarted (some id) handle.id name] [] := by
  refine ⟨rfl, List.suffix_cons .., fun {number lo n waiting} _ _ hwaiting =>
    ⟨[(handle, number)], waiting, hwaiting.congr rfl, ⟨?_, ?_⟩, ?_⟩⟩
  · rw [List.zipIdx_nil, List.append_nil]
    exact .refl _
  · rw [List.zipIdx_nil, List.append_nil]
    exact fun _ hp _ => hp
  · simp [startedBy, Event.started?]

/-- A queue in hand is out of reach for what goes on meanwhile: all that is taken then has a higher
number. -/
theorem hold (h : Ledger id m [] m' [] events added) (hand : List (Handle (Task σ))) :
    Ledger id m hand m' hand events added := by
  refine ⟨h.added_eq, List.suffix_rfl, fun {number lo n waiting} hnumber hle hwaiting => ?_⟩
  obtain ⟨taken, after, hafter, hbalance, hstarted⟩ :=
    @h.kept number lo n waiting (fun hne => absurd rfl hne) hle hwaiting
  refine ⟨taken, after, hafter, ⟨?_, hbalance.untouched⟩, hstarted⟩
  have hagree : Agree (spread (waiting ++ added.zipIdx n)) (taken ++ spread after) := hbalance.agree
  have hlow : ∀ p ∈ entries number hand, p.2 < lo := by
    intro p hp
    rw [snd_of_mem_entries hp]
    exact hnumber fun hhand => by rw [hhand] at hp; cases hp
  have hhigh : ∀ p ∈ taken, lo ≤ p.2 := by
    intro p hp
    obtain ⟨q, hq, hqp⟩ := mem_spread (hagree.mem (List.mem_append_left _ hp))
    rw [← hqp]
    rcases List.mem_append.1 hq with hq | hq
    · exact hwaiting.low q hq
    · exact Nat.le_trans hle (List.le_snd_of_mem_zipIdx hq)
  have hswap := (Agree.swap hlow hhigh).append (.refl (spread after))
  simp only [List.append_assoc] at hswap
  exact ((Agree.refl (entries number hand)).append hagree).trans hswap

/-- A queue is taken out, and what is left of it in the end is put back in front. -/
theorem of_hand {queue left : Queue (Task σ)} {rest : List (Queue (Task σ))}
    (hid : m.store.Has id) (hid₁ : m₁.store.Has id)
    (hqueues : (m.store.container id).queues = queue :: rest)
    (h : Ledger id (m.withQueues id rest) queue.handles m₁ left.handles events added) :
    Ledger id m [] { m₁ with store := m₁.store.returnQueue id left } [] events added := by
  refine ⟨h.added_eq, List.suffix_rfl, fun {other lo n waiting} _ _ hwaiting => ?_⟩
  obtain ⟨number, behind, rfl, hlow, hhigh, hbehind⟩ := hwaiting.take hid hqueues
  obtain ⟨taken, after, hafter, hbalance, hstarted⟩ :=
    h.kept (fun _ => Nat.lt_succ_self number) hhigh hbehind
  refine ⟨taken, _, ?_, hbalance.giveBack other, hstarted⟩
  obtain ⟨handles⟩ := left
  cases handles with
  | nil =>
    rw [Store.returnQueue_nil]
    exact hafter.mono (Nat.le_succ_of_le hlow)
  | cons handle handles =>
    refine (hafter.giveBack (Nat.lt_add_right _ hhigh) ?_).mono hlow
    rw [Store.returnQueue_cons, Store.container_modifyContainer_self hid₁]

end Ledger
end Workflow
