import Mathlib.Tactic.Ring
import Workflow.Double.Text
import Workflow.Proofs.Double.Shortest
import Workflow.Proofs.Json.Literal

/-! # Workflow.Proofs.Double.Text

The JSON text of a finite double is a literal with a fraction or an exponent, and the reader accepts
it: reading rounds twice, but not past the largest double.

* `Json.Spelling.double?_eq`: the number of a spelling whose digits all count.
* `Double.isSome_scaled?_shortest`: no overflow on the shortest digits of a double.
* `Double.exists_literal`: the literal of a finite double.
-/

namespace Workflow

/-! ## Reading digits -/

namespace Json
namespace Spelling

theorem absorb_eq {n : Nat} {digits : List Char}
    (h : 10 ^ digits.length * n + Digits.value digits < 2 ^ 64) :
    absorb n digits = (10 ^ digits.length * n + Digits.value digits, []) := by
  induction digits generalizing n with
  | nil => simp [absorb, Digits.value]
  | cons c digits ih =>
    have hvalue : 10 ^ (c :: digits).length * n + Digits.value (c :: digits) =
        10 ^ digits.length * (10 * n + Digits.digit c) + Digits.value digits := by
      rw [Digits.value_cons, List.length_cons, Nat.pow_succ, Nat.mul_add, Nat.add_assoc,
        Nat.mul_assoc]
    rw [hvalue] at h ⊢
    have hnext : 10 * n + Digits.digit c < Nat.pow 2 64 := by
      have hle : 10 * n + Digits.digit c ≤ 10 ^ digits.length * (10 * n + Digits.digit c) :=
        Nat.le_mul_of_pos_left _ (Nat.pow_pos (by decide))
      simp only [Nat.pow_eq]
      omega
    rw [absorb, if_pos hnext, ih h]

/-- The number of a spelling whose digits all count. -/
theorem double?_eq {s : Spelling} (h : Digits.value (s.whole ++ s.fraction) < 2 ^ 64) :
    s.double? = (scaled? (Digits.value (s.whole ++ s.fraction))
      (s.exponent.getD 0 - s.fraction.length)).map fun x => if s.negative then x.neg else x := by
  have hsplit := Digits.value_append s.whole s.fraction
  have hwhole : absorb 0 s.whole = (Digits.value s.whole, []) := by
    have hle : Digits.value s.whole ≤ 10 ^ s.fraction.length * Digits.value s.whole :=
      Nat.le_mul_of_pos_left _ (Nat.pow_pos (by decide))
    rw [absorb_eq (by omega), Nat.mul_zero, Nat.zero_add]
  have hfraction : absorb (Digits.value s.whole) s.fraction =
      (Digits.value (s.whole ++ s.fraction), []) := by
    rw [hsplit, absorb_eq (by omega)]
  have hexponent : ((([] : List Char).length : Int) - (s.fraction.length - ([] : List Char).length : Nat)
      + s.exponent.getD 0) = s.exponent.getD 0 - s.fraction.length := by
    simp only [List.length_nil]
    omega
  unfold double?
  simp only [hwhole, hfraction, hexponent]
  cases scaled? (Digits.value (s.whole ++ s.fraction)) (s.exponent.getD 0 - s.fraction.length) <;> rfl

theorem isSome_scaled?_of_neg (significand : Nat) {exponent : Int} (h : exponent < 0) :
    (scaled? significand exponent).isSome = true := by
  rw [scaled?, if_pos h]
  rfl

theorem isSome_scaled?_of_isFinite {significand exponent : Nat} (hexponent : exponent ≤ 308)
    (h : ((Double.ofNat significand).mul (Double.ofNat (10 ^ exponent))).isFinite = true) :
    (scaled? significand exponent).isSome = true := by
  have hinfinite := Double.isInfinite_of_isFinite h
  rw [← Nat.pow_eq] at hinfinite
  unfold scaled?
  rw [if_neg (by omega)]
  split
  · rfl
  · rw [if_neg (by omega), Int.natAbs_natCast]
    simp only [hinfinite, Bool.false_eq_true, if_false]
    rfl

end Spelling
end Json

/-! ## No overflow -/

namespace Double

/-- As far as the decimals reach that round to a double below the largest. -/
def reachOfOthers : Nat := (2 ^ 54 - 3) * Nat.pow 2 970

/-- The bits of the largest double. -/
def largestBits : Nat := infinityBits - 1

theorem units_reach {two top : Nat} (htwo : Nat.pow 2 1074 = two) (htop : Nat.pow 2 2045 = top) :
    4 * unitsOf (largestBits - 1) + 2 * top = 4 * reachOfOthers * two := by
  subst htwo htop
  decide +kernel

theorem reachOfOthers_lt : reachOfOthers < 10 ^ 200 * 10 ^ 109 := by decide +kernel

theorem isFinite_mul_reachOfOthers (k : Fin 17) :
    ((ofNat (reachOfOthers / Nat.pow 10 (292 + k))).mul (ofNat (Nat.pow 10 (292 + k)))).isFinite =
      true := by
  revert k
  decide +kernel

theorem isFinite_mul_seventeen :
    ((ofNat (10 ^ 17)).mul (ofNat (10 ^ 200 * 10 ^ 91))).isFinite = true := by
  decide +kernel

theorem pow_le_pow_mul_pow {a b exponent : Nat} (h : exponent ≤ a + b) :
    10 ^ exponent ≤ 10 ^ a * 10 ^ b :=
  Nat.pow_add 10 a b ▸ Nat.pow_le_pow_right (by decide) h

theorem pow_mul_pow_le_pow {a b exponent : Nat} (h : a + b ≤ exponent) :
    10 ^ a * 10 ^ b ≤ 10 ^ exponent :=
  Nat.pow_add 10 a b ▸ Nat.pow_le_pow_right (by decide) h

/-- The product is largest, for a given power of ten, at the most digits that stay in reach. -/
theorem isFinite_mul_of_le {significand exponent : Nat} (hsignificand : significand ≤ 10 ^ 17)
    (hexponent : exponent ≤ 308) (h : significand * 10 ^ exponent ≤ reachOfOthers) :
    ((ofNat significand).mul (ofNat (10 ^ exponent))).isFinite = true := by
  by_cases hsmall : exponent ≤ 291
  · exact isFinite_mul_ofNat hsignificand (pow_le_pow_mul_pow hsmall) isFinite_mul_seventeen
  · obtain ⟨k, rfl⟩ : ∃ k, exponent = 292 + k := ⟨exponent - 292, by omega⟩
    have hquotient : significand ≤ reachOfOthers / 10 ^ (292 + k) :=
      (Nat.le_div_iff_mul_le (Nat.pow_pos (by decide))).2 h
    exact isFinite_mul_ofNat hquotient (Nat.le_refl _) (isFinite_mul_reachOfOthers ⟨k, by omega⟩)

theorem isSome_scaled?_of_le {significand exponent : Nat} (hpos : 0 < significand)
    (hsignificand : significand ≤ 10 ^ 17) (h : significand * 10 ^ exponent ≤ reachOfOthers) :
    (Json.Spelling.scaled? significand exponent).isSome = true := by
  have hexponent : exponent ≤ 308 := by
    by_contra hlarge
    have hpow : 10 ^ 200 * 10 ^ 109 ≤ 10 ^ exponent := pow_mul_pow_le_pow (by omega)
    have hle : 10 ^ exponent ≤ reachOfOthers :=
      Nat.le_trans (Nat.le_mul_of_pos_left _ hpos) h
    exact Nat.lt_irrefl _ (Nat.lt_of_lt_of_le reachOfOthers_lt (Nat.le_trans hpow hle))
  exact Json.Spelling.isSome_scaled?_of_isFinite hexponent
    (isFinite_mul_of_le hsignificand hexponent h)

variable {x : Double}

theorem shift_le (hfinite : x.isFinite = true) : x.shift ≤ 2045 := by
  have hlt := isFinite_iff.1 hfinite
  simp only [infinityBits] at hlt
  simp only [shift, Nat.pow_eq]
  omega

theorem two_pow_le {m n top : Nat} (htop : Nat.pow 2 n = top) (h : m ≤ n) : 2 ^ m ≤ top :=
  htop ▸ Nat.pow_le_pow_right (by decide) h

theorem units_le {two : Nat} (htwo : Nat.pow 2 1074 = two) (hfinite : x.isFinite = true)
    (hlargest : x.magnitudeBits ≠ largestBits) :
    4 * x.units + 2 * 2 ^ x.shift ≤ 4 * reachOfOthers * two := by
  have hbits : x.magnitudeBits ≤ largestBits - 1 := by
    have hlt := isFinite_iff.1 hfinite
    simp only [largestBits, infinityBits] at hlt hlargest ⊢
    omega
  have hunits : x.units ≤ unitsOf (largestBits - 1) := by
    rw [units_eq]
    exact unitsOf_mono hbits
  obtain ⟨top, htop⟩ : ∃ top, Nat.pow 2 2045 = top := ⟨_, rfl⟩
  rw [← units_reach htwo htop]
  exact Nat.add_le_add (Nat.mul_le_mul_left 4 hunits)
    (Nat.mul_le_mul_left 2 (two_pow_le htop (shift_le hfinite)))

/-- The shortest decimal of a double other than the largest is in reach. -/
theorem Decimal.Denotes.le_reach {d : Decimal} {exponent : Nat}
    (h : d.Denotes x (exponent + 1074)) (hfinite : x.isFinite = true)
    (hlargest : x.magnitudeBits ≠ largestBits) :
    Digits.value d.digits * 10 ^ exponent ≤ reachOfOthers := by
  have hten {n two five : Nat} (htwo : Nat.pow 2 n = two) (hfive : Nat.pow 5 n = five) :
      10 ^ (exponent + n) = 10 ^ exponent * (two * five) := by
    rw [← hfive, ← htwo, Nat.pow_eq, Nat.pow_eq, ← Nat.mul_pow, ← Nat.pow_add]
  obtain ⟨five, hfive⟩ : ∃ five, Nat.pow 5 1074 = five := ⟨_, rfl⟩
  obtain ⟨two, htwo⟩ : ∃ two, Nat.pow 2 1074 = two := ⟨_, rfl⟩
  have hreads := (le_of_reads h.reads).2
  have hunits := units_le htwo hfinite hlargest
  have hdecimal : x.decimalUnits = x.units * five := by
    unfold decimalUnits
    rw [hfive]
  rw [hdecimal, place_eq hfive, hten htwo hfive] at hreads
  have hpos : 0 < five := pos_of_pow hfive (by decide)
  have hscaled : 4 * (Digits.value d.digits * 10 ^ exponent) * two ≤ 4 * reachOfOthers * two := by
    refine Nat.le_trans (Nat.le_of_mul_le_mul_right ?_ hpos) hunits
    calc 4 * (Digits.value d.digits * 10 ^ exponent) * two * five
        = 4 * (Digits.value d.digits * (10 ^ exponent * (two * five))) := by ring
      _ ≤ 4 * (x.units * five) + 2 * (Nat.pow 2 x.shift * five) := hreads
      _ = (4 * x.units + 2 * 2 ^ x.shift) * five := by rw [Nat.pow_eq]; ring
  have := Nat.le_of_mul_le_mul_right hscaled (pos_of_pow htwo Nat.two_pos)
  omega

/-- The two largest doubles are read back without overflow. -/
theorem isSome_scaled?_largest (hlargest : x.magnitudeBits = largestBits) :
    (Json.Spelling.scaled? (Digits.value (x.shortest .even).digits)
      ((x.shortest .even).exponent - ((x.shortest .even).digits.length - 1))).isSome = true := by
  have hbits : x.bits.toNat = largestBits ∨ x.bits.toNat = 2 ^ 63 + largestBits := by
    have hlt := x.bits.toNat_lt
    simp only [magnitudeBits, Nat.pow_eq, largestBits, infinityBits] at hlargest ⊢
    omega
  obtain ⟨bits⟩ := x
  rcases hbits with h | h
  · obtain rfl : bits = UInt64.ofNat largestBits := UInt64.toNat_inj.1 (by rw [h]; decide)
    decide +kernel
  · obtain rfl : bits = UInt64.ofNat (2 ^ 63 + largestBits) :=
      UInt64.toNat_inj.1 (by rw [h]; decide)
    decide +kernel

theorem isSome_scaled?_shortest (hfinite : x.isFinite = true) (hzero : x.isZero = false) :
    (Json.Spelling.scaled? (Digits.value (x.shortest .even).digits)
      ((x.shortest .even).exponent - ((x.shortest .even).digits.length - 1))).isSome = true := by
  by_cases hlargest : x.magnitudeBits = largestBits
  · exact isSome_scaled?_largest hlargest
  · obtain ⟨place, h⟩ := denotes_shortest hzero .even
    have hexponent : (x.shortest .even).exponent - ((x.shortest .even).digits.length - 1) =
        (place : Int) - 1074 := by
      rw [h.exponent]
      omega
    rw [hexponent]
    by_cases hsmall : place < 1074
    · exact Json.Spelling.isSome_scaled?_of_neg _ (by omega)
    · obtain ⟨exponent, rfl⟩ : ∃ exponent, place = exponent + 1074 := ⟨place - 1074, by omega⟩
      have hpos : 0 < Digits.value (x.shortest .even).digits :=
        Nat.pos_of_mul_pos_right (pos_of_reads hzero h.reads)
      rw [show ((exponent + 1074 : Nat) : Int) - 1074 = exponent by omega]
      exact isSome_scaled?_of_le hpos h.value_le (h.le_reach hfinite hlargest)

/-! ## Literals -/

/-- The parts of a literal without exponent, whose digits all count. -/
structure PlainParts (whole fraction : List Char) : Prop where
  whole_run : Digits.Run whole
  whole_zero : whole.head? = some '0' → whole = ['0']
  fraction_run : Digits.Run fraction
  value_lt : Digits.value (whole ++ fraction) < 2 ^ 64

theorem PlainParts.exists_literal {whole fraction : List Char} (h : PlainParts whole fraction)
    (negative : Bool) :
    ∃ l : Json.Literal, l.negative = negative ∧ l.unsignedChars = whole ++ '.' :: fraction ∧
      l.fraction ≠ none ∧ l.spelling.double?.isSome = true := by
  refine ⟨⟨negative, whole, some fraction, none, h.whole_run, h.whole_zero,
    fun _ hmem => Option.some.inj hmem ▸ h.fraction_run⟩, rfl, ?_, by simp, ?_⟩
  · simp [Json.Literal.unsignedChars, Json.Literal.fractionChars, Json.Literal.exponentChars]
  · rw [Json.Spelling.double?_eq h.value_lt, Option.isSome_map]
    refine Json.Spelling.isSome_scaled?_of_neg _ ?_
    have hlength := List.length_pos_iff.2 h.fraction_run.ne_nil
    simp only [Json.Literal.spelling, Option.map_none, Option.getD_none, Option.getD_some]
    omega

theorem value_lt_of_le {n : Nat} (h : n ≤ 10 ^ 17) : n < 2 ^ 64 := Nat.lt_of_le_of_lt h (by decide)

namespace Decimal

variable {d : Decimal}

/-- A decimal below one, written out. -/
theorem plainParts_of_neg {zeros : Nat} (hrun : Digits.Run d.digits)
    (hvalue : Digits.value d.digits ≤ 10 ^ 17) :
    PlainParts ['0'] (List.replicate zeros '0' ++ d.digits) where
  whole_run := Digits.run_singleton rfl
  whole_zero _ := rfl
  fraction_run := by
    refine ⟨by simp [hrun.ne_nil], fun c hc => ?_⟩
    rcases List.mem_append.1 hc with hc | hc
    · rw [List.eq_of_mem_replicate hc]
      rfl
    · exact hrun.isDigit c hc
  value_lt := by
    have hzero : Digits.digit '0' = 0 := rfl
    rw [List.singleton_append, Digits.value_cons, hzero, Nat.mul_zero, Nat.zero_add,
      Digits.value_append, Digits.value_replicate_zero, Nat.mul_zero, Nat.zero_add]
    exact value_lt_of_le hvalue

/-- A whole number, written with a fraction. -/
theorem plainParts_of_whole {zeros : Nat} (hrun : Digits.Run d.digits)
    (hhead : d.digits.head? = some '0' → zeros = 0 ∧ d.digits = ['0'])
    (hlength : d.digits.length + zeros ≤ 16) :
    PlainParts (d.digits ++ List.replicate zeros '0') ['0'] where
  whole_run := hrun.append fun c hc => by
    rw [List.eq_of_mem_replicate hc]
    rfl
  whole_zero h := by
    obtain ⟨c, more, hdigits⟩ := List.exists_cons_of_ne_nil hrun.ne_nil
    obtain ⟨rfl, hzero⟩ := hhead (by simpa [hdigits] using h)
    simp [hzero]
  fraction_run := Digits.run_singleton rfl
  value_lt := by
    have hdigits : ∀ c ∈ d.digits ++ List.replicate zeros '0' ++ ['0'], c.isDigit = true := by
      intro c hc
      rcases List.mem_append.1 hc with hc | hc
      · rcases List.mem_append.1 hc with hc | hc
        · exact hrun.isDigit c hc
        · rw [List.eq_of_mem_replicate hc]
          rfl
      · rw [List.mem_singleton.1 hc]
        rfl
    refine value_lt_of_le (Nat.le_of_lt (Nat.lt_of_lt_of_le (Digits.value_lt hdigits) ?_))
    refine Nat.pow_le_pow_right (by decide) ?_
    simp only [List.length_append, List.length_replicate, List.length_singleton]
    omega

/-- A number with digits on both sides of the point. -/
theorem plainParts_of_split {whole : Nat} (hrun : Digits.Run d.digits)
    (hhead : d.digits.head? ≠ some '0') (hvalue : Digits.value d.digits ≤ 10 ^ 17)
    (hwhole : 0 < whole) (hlength : whole < d.digits.length) :
    PlainParts (d.digits.take whole) (d.digits.drop whole) where
  whole_run := ⟨by simp [hrun.ne_nil]; omega,
    fun c hc => hrun.isDigit c (List.mem_of_mem_take hc)⟩
  whole_zero h := by
    rw [List.head?_take, if_neg (Nat.ne_of_gt hwhole)] at h
    exact absurd h hhead
  fraction_run := ⟨by simp; omega, fun c hc => hrun.isDigit c (List.mem_of_mem_drop hc)⟩
  value_lt := by
    rw [List.take_append_drop]
    exact value_lt_of_le hvalue

theorem exists_plainParts (hrun : Digits.Run d.digits)
    (hhead : d.digits.head? = some '0' → d = ⟨['0'], 0⟩)
    (hvalue : Digits.value d.digits ≤ 10 ^ 17) (hexponent : d.exponent ≤ 15) :
    ∃ whole fraction, d.positional true = whole ++ '.' :: fraction ∧ PlainParts whole fraction := by
  unfold positional
  split
  · exact ⟨['0'], _, rfl, plainParts_of_neg hrun hvalue⟩
  · dsimp only
    split
    · rename_i hlength
      refine ⟨d.digits ++ List.replicate (d.exponent.toNat + 1 - d.digits.length) '0', ['0'], ?_,
        plainParts_of_whole hrun (fun hzero => ?_) (by omega)⟩
      · rw [if_pos rfl]
      · rw [hhead hzero]
        exact ⟨rfl, rfl⟩
    · rename_i hlength
      refine ⟨_, _, rfl, plainParts_of_split hrun (fun hzero => ?_) hvalue (Nat.succ_pos _)
        (by omega)⟩
      rw [hhead hzero] at hlength
      exact hlength (Nat.le_refl 1)

/-- The exponent of a decimal, with the sign that is always written. -/
def exponentPart (d : Decimal) : Json.Exponent where
  mark := 'e'
  sign := [if d.exponent < 0 then '-' else '+']
  digits := Digits.ofNat d.exponent.natAbs
  mark_eq := .inl rfl
  sign_eq := by split <;> simp
  run := Digits.run_ofNat _

theorem value_exponentPart (d : Decimal) : d.exponentPart.value = d.exponent := by
  simp only [Json.Exponent.value, exponentPart, Digits.value_ofNat]
  by_cases h : d.exponent < 0
  · rw [if_pos h, if_pos rfl]
    omega
  · rw [if_neg h, if_neg (by decide)]
    omega

theorem exists_scientific (hrun : Digits.Run d.digits) (hhead : d.digits.head? ≠ some '0')
    (hvalue : Digits.value d.digits ≤ 10 ^ 17)
    (hscaled : (Json.Spelling.scaled? (Digits.value d.digits)
      (d.exponent - (d.digits.length - 1))).isSome = true) (negative : Bool) :
    ∃ l : Json.Literal, l.negative = negative ∧ l.unsignedChars = d.scientific ∧
      l.exponent ≠ none ∧ l.spelling.double?.isSome = true := by
  obtain ⟨c, more, hdigits⟩ := List.exists_cons_of_ne_nil hrun.ne_nil
  have hc : c ≠ '0' := fun hzero => hhead (by rw [hdigits, hzero]; rfl)
  have hmore : ∀ e ∈ more, e.isDigit = true := fun e he =>
    hrun.isDigit e (hdigits ▸ List.mem_cons_of_mem c he)
  have hwhole : Digits.Run [c] :=
    Digits.run_singleton (hrun.isDigit c (hdigits ▸ List.mem_cons_self))
  refine ⟨⟨negative, [c], if more = [] then none else some more, some d.exponentPart, hwhole,
    fun hzero => absurd (Option.some.inj hzero) hc, ?_⟩, rfl, ?_, by simp, ?_⟩
  · split
    · simp
    · rename_i hne
      exact fun _ hmem => Option.some.inj hmem ▸ ⟨hne, hmore⟩
  · simp only [Json.Literal.unsignedChars, Json.Literal.exponentChars, Json.Exponent.chars,
      exponentPart, scientific, hdigits]
    cases more with
    | nil => rfl
    | cons e more => simp [Json.Literal.fractionChars]
  · have hfraction : (if more = [] then none else some more).getD [] = more := by
      split
      · rename_i hnil
        rw [hnil]
        rfl
      · rfl
    rw [Json.Spelling.double?_eq, Option.isSome_map]
    all_goals simp only [Json.Literal.spelling, hfraction, List.singleton_append, ← hdigits,
      Option.map_some, Option.getD_some, value_exponentPart]
    · convert hscaled using 3
      rw [hdigits, List.length_cons]
      omega
    · exact value_lt_of_le hvalue

end Decimal

variable {x : Double}

theorem shortest_of_isZero (hzero : x.isZero = true) (tie : Tie) : x.shortest tie = ⟨['0'], 0⟩ := by
  rw [shortest, if_pos hzero]

/-- The digits of a double: those of zero, or such without a zero in front. -/
theorem shortest_cases (x : Double) (tie : Tie) :
    Digits.Run (x.shortest tie).digits ∧ Digits.value (x.shortest tie).digits ≤ 10 ^ 17 ∧
      ((x.shortest tie).digits.head? = some '0' → x.shortest tie = ⟨['0'], 0⟩) := by
  cases hzero : x.isZero with
  | true =>
    rw [shortest_of_isZero hzero]
    exact ⟨Digits.run_singleton rfl, by decide, fun _ => rfl⟩
  | false =>
    obtain ⟨place, h⟩ := denotes_shortest hzero tie
    exact ⟨h.run, h.value_le, fun hhead => absurd hhead h.head⟩

theorem exists_unsigned (hfinite : x.isFinite = true) :
    ∃ l : Json.Literal, l.negative = x.negative ∧
      l.unsignedChars = (if Style.json.positional (x.shortest .even).exponent then
        (x.shortest .even).positional true else (x.shortest .even).scientific) ∧
      (l.fraction ≠ none ∨ l.exponent ≠ none) ∧ l.spelling.double?.isSome = true := by
  obtain ⟨hrun, hvalue, hhead⟩ := shortest_cases x .even
  split
  · rename_i hpositional
    have hexponent : (x.shortest .even).exponent ≤ 15 := by
      simp only [Style.json, Bool.and_eq_true, decide_eq_true_eq] at hpositional
      exact hpositional.2
    obtain ⟨whole, fraction, hparts, hplain⟩ :=
      Decimal.exists_plainParts hrun hhead hvalue hexponent
    obtain ⟨l, hnegative, hunsigned, hfraction, hread⟩ := hplain.exists_literal x.negative
    exact ⟨l, hnegative, hunsigned.trans hparts.symm, .inl hfraction, hread⟩
  · rename_i hscientific
    cases hzero : x.isZero with
    | true =>
      rw [shortest_of_isZero hzero] at hscientific
      exact absurd rfl hscientific
    | false =>
      obtain ⟨place, h⟩ := denotes_shortest hzero .even
      obtain ⟨l, hnegative, hunsigned, hexponent, hread⟩ := Decimal.exists_scientific hrun h.head
        hvalue (isSome_scaled?_shortest hfinite hzero) x.negative
      exact ⟨l, hnegative, hunsigned, .inr hexponent, hread⟩

/-- The JSON text of a finite double is a literal with a fraction or an exponent, and it is
accepted. -/
theorem exists_literal (hfinite : x.isFinite = true) :
    ∃ l : Json.Literal, l.chars = Style.json.text x ∧ (l.fraction ≠ none ∨ l.exponent ≠ none) ∧
      l.spelling.double?.isSome = true := by
  obtain ⟨l, hnegative, hunsigned, hparts, hread⟩ := exists_unsigned hfinite
  refine ⟨l, ?_, hparts, hread⟩
  rw [Json.Literal.chars, hnegative, hunsigned, Style.text]
  cases x.negative <;> rfl

end Double
end Workflow
