import Mathlib.Algebra.Group.Nat.Defs
import Mathlib.Data.Nat.Log
import Workflow.Double

/-! # Workflow.Proofs.Double.Rounding

Rounding keeps the order of numbers, so a product of rounded numbers is no double only where a larger
one is none either.

* `Double.unitsOf_mono`: the number of units grows with the bits.
* `Double.roundUnits_mono`: rounding to a double keeps the order.
* `Double.isFinite_mul_ofNat`: of products of rounded numbers.
-/

namespace Workflow
namespace Double

/-! ## Magnitudes -/

theorem magnitudeBits_ofMagnitude {m : Nat} (negative : Bool) (h : m < 2 ^ 63) :
    (ofMagnitude negative m).magnitudeBits = m := by
  cases negative with
  | false =>
    simp only [ofMagnitude, magnitudeBits, Nat.pow_eq, UInt64.toNat_ofNat', Bool.false_eq_true,
      if_false]
    omega
  | true =>
    simp only [ofMagnitude, magnitudeBits, Nat.pow_eq, UInt64.toNat_ofNat', if_true]
    omega

theorem isFinite_iff {x : Double} : x.isFinite = true ↔ x.magnitudeBits < infinityBits :=
  decide_eq_true_iff

/-- The number of units of the double with these bits. -/
def unitsOf (m : Nat) : Nat :=
  (if m < 2 ^ 52 then m % 2 ^ 52 else 2 ^ 52 + m % 2 ^ 52) * 2 ^ (m / 2 ^ 52 - 1)

theorem units_eq (x : Double) : x.units = unitsOf x.magnitudeBits := rfl

theorem unitsOf_of_lt {m : Nat} (h : m < 2 ^ 52) : unitsOf m = m := by
  have hshift : m / 2 ^ 52 = 0 := Nat.div_eq_of_lt h
  rw [unitsOf, if_pos h, hshift, Nat.mod_eq_of_lt h, Nat.zero_sub, Nat.pow_zero, Nat.mul_one]

theorem unitsOf_of_le {m : Nat} (h : 2 ^ 52 ≤ m) :
    unitsOf m = (2 ^ 52 + m % 2 ^ 52) * 2 ^ (m / 2 ^ 52 - 1) := by
  rw [unitsOf, if_neg (Nat.not_lt.2 h)]

/-- Doubles with one last place lie below those with the next. -/
theorem unitsOf_lt_pow {m : Nat} (h : 2 ^ 52 ≤ m) : unitsOf m < 2 ^ (52 + m / 2 ^ 52) := by
  have hplace : 1 ≤ m / 2 ^ 52 := (Nat.one_le_div_iff (Nat.two_pow_pos 52)).2 h
  have hsignificand : 2 ^ 52 + m % 2 ^ 52 < 2 ^ 53 := by
    have := Nat.mod_lt m (Nat.two_pow_pos 52)
    omega
  rw [unitsOf_of_le h]
  calc (2 ^ 52 + m % 2 ^ 52) * 2 ^ (m / 2 ^ 52 - 1) < 2 ^ 53 * 2 ^ (m / 2 ^ 52 - 1) :=
        Nat.mul_lt_mul_of_pos_right hsignificand (Nat.two_pow_pos _)
    _ = 2 ^ (52 + m / 2 ^ 52) := by
        rw [← Nat.pow_add]
        congr 1
        omega

theorem pow_le_unitsOf {m : Nat} (h : 2 ^ 52 ≤ m) : 2 ^ (51 + m / 2 ^ 52) ≤ unitsOf m := by
  have hplace : 1 ≤ m / 2 ^ 52 := (Nat.one_le_div_iff (Nat.two_pow_pos 52)).2 h
  rw [unitsOf_of_le h]
  calc 2 ^ (51 + m / 2 ^ 52) = 2 ^ 52 * 2 ^ (m / 2 ^ 52 - 1) := by
        rw [← Nat.pow_add]
        congr 1
        omega
    _ ≤ (2 ^ 52 + m % 2 ^ 52) * 2 ^ (m / 2 ^ 52 - 1) :=
        Nat.mul_le_mul_right _ (Nat.le_add_right _ _)

theorem unitsOf_mono {m n : Nat} (h : m ≤ n) : unitsOf m ≤ unitsOf n := by
  by_cases hm : m < 2 ^ 52
  · rw [unitsOf_of_lt hm]
    by_cases hn : n < 2 ^ 52
    · rwa [unitsOf_of_lt hn]
    · rw [Nat.not_lt] at hn
      calc m ≤ 2 ^ 52 := Nat.le_of_lt hm
        _ ≤ 2 ^ (51 + n / 2 ^ 52) := by
            have hplace : 1 ≤ n / 2 ^ 52 := (Nat.one_le_div_iff (Nat.two_pow_pos 52)).2 hn
            exact Nat.pow_le_pow_right (by decide) (by omega)
        _ ≤ unitsOf n := pow_le_unitsOf hn
  · rw [Nat.not_lt] at hm
    have hn : 2 ^ 52 ≤ n := Nat.le_trans hm h
    rcases Nat.lt_or_eq_of_le (Nat.div_le_div_right h : m / 2 ^ 52 ≤ n / 2 ^ 52) with hlt | heq
    · calc unitsOf m ≤ 2 ^ (52 + m / 2 ^ 52) := Nat.le_of_lt (unitsOf_lt_pow hm)
        _ ≤ 2 ^ (51 + n / 2 ^ 52) := Nat.pow_le_pow_right (by decide) (by omega)
        _ ≤ unitsOf n := pow_le_unitsOf hn
    · have hmod : m % 2 ^ 52 ≤ n % 2 ^ 52 := by
        have hm' := Nat.div_add_mod m (2 ^ 52)
        have hn' := Nat.div_add_mod n (2 ^ 52)
        rw [heq] at hm'
        omega
      rw [unitsOf_of_le hm, unitsOf_of_le hn, heq]
      exact Nat.mul_le_mul_right _ (Nat.add_le_add_left hmod _)

/-! ## Rounding -/

variable {num num' den : Nat}

theorem le_roundDiv {q : Nat} (hden : 0 < den) (h : q * den ≤ num) : q ≤ roundDiv num den := by
  have hq : q ≤ num / den := (Nat.le_div_iff_mul_le hden).2 h
  unfold roundDiv
  dsimp only
  split
  · exact hq
  · split <;> omega

theorem roundDiv_le {q : Nat} (hden : 0 < den) (h : num < q * den) : roundDiv num den ≤ q := by
  have hq : num / den < q := (Nat.div_lt_iff_lt_mul hden).2 h
  unfold roundDiv
  dsimp only
  split
  · omega
  · split <;> omega

theorem roundDiv_mono (hden : 0 < den) (h : num ≤ num') : roundDiv num den ≤ roundDiv num' den := by
  rcases Nat.lt_or_eq_of_le (Nat.div_le_div_right h : num / den ≤ num' / den) with hlt | heq
  · have hnum : num < (num' / den) * den := by
      calc num < den * (num / den + 1) := Nat.lt_mul_div_succ num hden
        _ ≤ den * (num' / den) := Nat.mul_le_mul_left _ hlt
        _ = (num' / den) * den := Nat.mul_comm _ _
    exact Nat.le_trans (roundDiv_le hden hnum) (le_roundDiv hden (Nat.div_mul_le_self _ _))
  · have hrest : num % den ≤ num' % den := by
      have hnum := Nat.div_add_mod num den
      have hnum' := Nat.div_add_mod num' den
      rw [heq] at hnum
      omega
    simp only [roundDiv, heq]
    split_ifs <;> omega

/-- How far `num / den` units exceed the doubles with the least last place. -/
def shiftOf (num den : Nat) : Nat := (num / den).log2 - 52

theorem roundUnits_eq (num den : Nat) : roundUnits num den =
    min infinityBits (shiftOf num den * 2 ^ 52 + roundDiv num (den * 2 ^ shiftOf num den)) := rfl

theorem roundUnits_le (num den : Nat) : roundUnits num den ≤ infinityBits := Nat.min_le_left _ _

theorem shiftOf_mono (h : num ≤ num') : shiftOf num den ≤ shiftOf num' den := by
  have hdiv : num / den ≤ num' / den := Nat.div_le_div_right h
  have hlog : (num / den).log2 ≤ (num' / den).log2 := by
    rw [Nat.log2_eq_log_two, Nat.log2_eq_log_two]
    exact Nat.log_mono_right hdiv
  exact Nat.sub_le_sub_right hlog 52

/-- Rounding at the last place of a number leaves at most 53 bits, or a carry out of them. -/
theorem roundDiv_shift_le (hden : 0 < den) :
    roundDiv num (den * 2 ^ shiftOf num den) ≤ 2 ^ 53 := by
  have hsize : num / den < 2 ^ (53 + shiftOf num den) := by
    calc num / den < 2 ^ ((num / den).log2 + 1) := Nat.lt_log2_self
      _ ≤ 2 ^ (53 + shiftOf num den) := by
        refine Nat.pow_le_pow_right (by decide) ?_
        rw [shiftOf]
        omega
  refine roundDiv_le (Nat.mul_pos hden (Nat.two_pow_pos _)) ?_
  rw [Nat.mul_left_comm, ← Nat.pow_add, Nat.mul_comm den]
  exact (Nat.div_lt_iff_lt_mul hden).1 hsize

/-- Where the last place is above the least, the significand has all its bits. -/
theorem le_roundDiv_shift (hden : 0 < den) (h : 0 < shiftOf num den) :
    2 ^ 52 ≤ roundDiv num (den * 2 ^ shiftOf num den) := by
  have hpos : num / den ≠ 0 := by
    intro hzero
    rw [shiftOf, hzero, Nat.log2_zero] at h
    exact Nat.lt_irrefl 0 h
  have hsize : 2 ^ (52 + shiftOf num den) ≤ num / den := by
    have hlog : 52 + shiftOf num den = (num / den).log2 := by
      rw [shiftOf] at h ⊢
      omega
    rw [hlog]
    exact Nat.log2_self_le hpos
  refine le_roundDiv (Nat.mul_pos hden (Nat.two_pow_pos _)) ?_
  rw [Nat.mul_left_comm, ← Nat.pow_add, Nat.mul_comm den]
  exact (Nat.le_div_iff_mul_le hden).1 hsize

theorem roundUnits_mono (hden : 0 < den) (h : num ≤ num') :
    roundUnits num den ≤ roundUnits num' den := by
  rw [roundUnits_eq, roundUnits_eq]
  refine Nat.le_min.2 ⟨Nat.min_le_left _ _, Nat.le_trans (Nat.min_le_right _ _) ?_⟩
  have hshift : shiftOf num den ≤ shiftOf num' den := shiftOf_mono h
  rcases Nat.lt_or_eq_of_le hshift with hlt | heq
  · -- The larger number has a higher last place, so it has more places in all.
    calc shiftOf num den * 2 ^ 52 + roundDiv num (den * 2 ^ shiftOf num den)
        ≤ shiftOf num den * 2 ^ 52 + 2 ^ 53 := Nat.add_le_add_left (roundDiv_shift_le hden) _
      _ = (shiftOf num den + 1) * 2 ^ 52 + 2 ^ 52 := by omega
      _ ≤ shiftOf num' den * 2 ^ 52 + 2 ^ 52 := by
        exact Nat.add_le_add_right (Nat.mul_le_mul_right _ hlt) _
      _ ≤ shiftOf num' den * 2 ^ 52 + roundDiv num' (den * 2 ^ shiftOf num' den) :=
        Nat.add_le_add_left (le_roundDiv_shift hden (Nat.zero_lt_of_lt hlt)) _
  · rw [heq]
    exact Nat.add_le_add_left (roundDiv_mono (Nat.mul_pos hden (Nat.two_pow_pos _)) h) _

/-! ## Products of rounded numbers -/

theorem magnitudeBits_ofRatio (negative : Bool) (num den : Nat) :
    (ofRatio negative num den).magnitudeBits = roundUnits (num * Nat.pow 2 1074) den := by
  have hle := roundUnits_le (num * Nat.pow 2 1074) den
  refine magnitudeBits_ofMagnitude negative (Nat.lt_of_le_of_lt hle (by decide))

theorem magnitudeBits_ofNat_mono {m n : Nat} (h : m ≤ n) :
    (ofNat m).magnitudeBits ≤ (ofNat n).magnitudeBits := by
  rw [ofNat, ofNat, magnitudeBits_ofRatio, magnitudeBits_ofRatio]
  exact roundUnits_mono Nat.one_pos (Nat.mul_le_mul_right _ h)

theorem isNaN_ofNat (n : Nat) : (ofNat n).isNaN = false := by
  rw [isNaN, ofNat, magnitudeBits_ofRatio]
  exact decide_eq_false (Nat.not_lt.2 (roundUnits_le _ _))

variable {x y : Double}

theorem isNaN_of_isFinite (h : x.isFinite = true) : x.isNaN = false :=
  decide_eq_false (Nat.not_lt.2 (Nat.le_of_lt (isFinite_iff.1 h)))

theorem isInfinite_of_isFinite (h : x.isFinite = true) : x.isInfinite = false :=
  beq_false_of_ne (Nat.ne_of_lt (isFinite_iff.1 h))

theorem pos_of_pow {base n power : Nat} (h : Nat.pow base n = power) (hbase : 0 < base) :
    0 < power := h ▸ Nat.pow_pos hbase

theorem magnitudeBits_mul {den : Nat} (hden : Nat.pow 2 2148 = den) (hx : x.isFinite = true)
    (hy : y.isFinite = true) :
    (x.mul y).magnitudeBits = roundUnits (x.units * y.units * Nat.pow 2 1074) den := by
  unfold mul
  rw [hden, isNaN_of_isFinite hx, isNaN_of_isFinite hy, isInfinite_of_isFinite hx,
    isInfinite_of_isFinite hy, Bool.or_self, if_neg Bool.false_ne_true, if_neg Bool.false_ne_true,
    magnitudeBits_ofRatio]

theorem isFinite_infinity (negative : Bool) : (infinity negative).isFinite = false := by
  cases negative <;> decide

/-- No product with an infinite number is finite. -/
theorem not_isInfinite_of_mul (hx : x.isNaN = false) (hy : y.isNaN = false)
    (h : (x.mul y).isFinite = true) : x.isInfinite = false ∧ y.isInfinite = false := by
  rw [← Bool.or_eq_false_iff, Bool.eq_false_iff]
  intro hinfinite
  simp only [mul, hx, hy, hinfinite, Bool.or_self, Bool.false_eq_true, if_false, if_true] at h
  split at h
  · exact absurd h (by decide)
  · rw [isFinite_infinity] at h
    exact absurd h Bool.false_ne_true

theorem isFinite_ofNat_of_isInfinite {n : Nat} (h : (ofNat n).isInfinite = false) :
    (ofNat n).isFinite = true := by
  have hle := roundUnits_le (n * Nat.pow 2 1074) 1
  rw [← magnitudeBits_ofRatio false n 1] at hle
  exact isFinite_iff.2 (Nat.lt_of_le_of_ne hle (ne_of_beq_false h))

theorem isFinite_ofNat_mono {m n : Nat} (h : m ≤ n) (hn : (ofNat n).isFinite = true) :
    (ofNat m).isFinite = true :=
  isFinite_iff.2 (Nat.lt_of_le_of_lt (magnitudeBits_ofNat_mono h) (isFinite_iff.1 hn))

theorem units_ofNat_mono {m n : Nat} (h : m ≤ n) : (ofNat m).units ≤ (ofNat n).units := by
  rw [units_eq, units_eq]
  exact unitsOf_mono (magnitudeBits_ofNat_mono h)

/-- A product of rounded numbers is finite where one of larger numbers is. -/
theorem isFinite_mul_ofNat {m m' n n' : Nat} (hm : m ≤ m') (hn : n ≤ n')
    (h : ((ofNat m').mul (ofNat n')).isFinite = true) :
    ((ofNat m).mul (ofNat n)).isFinite = true := by
  obtain ⟨hx, hy⟩ := not_isInfinite_of_mul (isNaN_ofNat m') (isNaN_ofNat n') h
  have hm' := isFinite_ofNat_of_isInfinite hx
  have hn' := isFinite_ofNat_of_isInfinite hy
  obtain ⟨den, hden⟩ : ∃ den, Nat.pow 2 2148 = den := ⟨_, rfl⟩
  rw [isFinite_iff, magnitudeBits_mul hden hm' hn'] at h
  rw [isFinite_iff, magnitudeBits_mul hden (isFinite_ofNat_mono hm hm') (isFinite_ofNat_mono hn hn')]
  refine Nat.lt_of_le_of_lt (roundUnits_mono (pos_of_pow hden Nat.two_pos) ?_) h
  exact Nat.mul_le_mul_right _ (Nat.mul_le_mul (units_ofNat_mono hm) (units_ofNat_mono hn))

end Double
end Workflow
