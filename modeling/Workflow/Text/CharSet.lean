/-! # Workflow.Text.CharSet

Sets of characters, as closed ranges of code points in ascending order. `CharSet.has` looks for the
range of a character from the front and gives up at the first range past it; as the ranges ascend,
it finds every member and nothing else (`CharSet.has_iff`).
-/

namespace Workflow

/-- No range is empty, and each starts past the end of the one before it. -/
def CharSet.ascendsFrom (least : Nat) : List (Nat × Nat) → Bool
  | [] => true
  | (low, high) :: rest => least ≤ low && low ≤ high && ascendsFrom (high + 1) rest

structure CharSet where
  ranges : List (Nat × Nat)
  ascending : CharSet.ascendsFrom 0 ranges = true

namespace CharSet

def covers (point : Nat) : List (Nat × Nat) → Bool
  | [] => false
  | (low, high) :: rest => low ≤ point && (point ≤ high || covers point rest)

def has (s : CharSet) (c : Char) : Bool := covers c.toNat s.ranges

theorem le_low_of_ascendsFrom {least : Nat} {ranges : List (Nat × Nat)}
    (h : ascendsFrom least ranges = true) {range : Nat × Nat} (mem : range ∈ ranges) :
    least ≤ range.1 := by
  induction ranges generalizing least with
  | nil => cases mem
  | cons first rest ih =>
    simp only [ascendsFrom, Bool.and_eq_true, decide_eq_true_eq] at h
    obtain ⟨⟨least_le, low_le⟩, ascends⟩ := h
    cases mem with
    | head => exact least_le
    | tail _ mem =>
      have := ih ascends mem
      omega

theorem covers_iff {least point : Nat} {ranges : List (Nat × Nat)}
    (h : ascendsFrom least ranges = true) :
    covers point ranges = true ↔ ∃ range ∈ ranges, range.1 ≤ point ∧ point ≤ range.2 := by
  induction ranges generalizing least with
  | nil => simp [covers]
  | cons first rest ih =>
    simp only [ascendsFrom, Bool.and_eq_true, decide_eq_true_eq] at h
    obtain ⟨⟨_, low_le⟩, ascends⟩ := h
    simp only [covers, Bool.and_eq_true, Bool.or_eq_true, decide_eq_true_eq, ih ascends,
      List.mem_cons, exists_eq_or_imp]
    constructor
    · rintro ⟨low_le_point, le_high | within⟩
      · exact .inl ⟨low_le_point, le_high⟩
      · exact .inr within
    · rintro (within | ⟨range, mem, within⟩)
      · exact ⟨within.1, .inl within.2⟩
      · have := le_low_of_ascendsFrom ascends mem
        exact ⟨by omega, .inr ⟨range, mem, within⟩⟩

theorem has_iff (s : CharSet) (c : Char) :
    s.has c = true ↔ ∃ range ∈ s.ranges, range.1 ≤ c.toNat ∧ c.toNat ≤ range.2 :=
  covers_iff s.ascending

end CharSet
end Workflow
