import Mathlib.Data.List.TakeWhile
import Workflow.Double.Shortest
import Workflow.Proofs.Double.Rounding
import Workflow.Proofs.Text.Digits

/-! # Workflow.Proofs.Double.Shortest

The shortest decimal of a double. Seventeen digits are always enough, since there is a decimal with so
many closer to a double than half the way to its neighbours.

* `Double.le_of_reads`, `Double.reads_of_lt`: what it takes to round to a double.
* `Double.isSome_nearest?_seventeen`: there is a decimal with seventeen digits.
* `Double.shortest_spec`: the digits that are found, and that their number rounds to the double.
-/

namespace Workflow
namespace Double

variable {x : Double}

/-! ## Significand and place -/

/-- The last place of a finite double, in units of `10 ^ -1074`. -/
def place (x : Double) : Nat := Nat.pow 2 x.shift * Nat.pow 5 1074

theorem place_eq {five : Nat} (h : Nat.pow 5 1074 = five) : x.place = Nat.pow 2 x.shift * five := by
  unfold place
  rw [h]

theorem decimalUnits_eq (x : Double) : x.decimalUnits = x.significand * x.place := by
  obtain ⟨five, hfive⟩ : ∃ five, Nat.pow 5 1074 = five := ⟨_, rfl⟩
  rw [place_eq hfive]
  unfold decimalUnits units
  rw [hfive, Nat.mul_assoc]

theorem significand_lt (x : Double) : x.significand < 2 ^ 53 := by
  have hmod := Nat.mod_lt x.magnitudeBits (Nat.two_pow_pos 52)
  simp only [significand, Nat.pow_eq]
  split <;> omega

theorem significand_pos (h : x.isZero = false) : 0 < x.significand := by
  have hpos : x.magnitudeBits ≠ 0 := ne_of_beq_false h
  simp only [significand, Nat.pow_eq]
  split
  · rename_i hlt
    rw [Nat.mod_eq_of_lt hlt]
    exact Nat.pos_of_ne_zero hpos
  · exact Nat.add_pos_left (Nat.two_pow_pos 52) _

theorem pow_sixteen_lt_place (x : Double) : 10 ^ 16 < x.place := by
  have hfive : ∀ five, Nat.pow 5 1074 = five → 10 ^ 16 < five := by
    rintro _ rfl
    decide +kernel
  obtain ⟨five, h⟩ : ∃ five, Nat.pow 5 1074 = five := ⟨_, rfl⟩
  rw [place_eq h]
  exact Nat.lt_of_lt_of_le (hfive five h) (Nat.le_mul_of_pos_left _ (Nat.two_pow_pos _))

/-! ## Rounding to a double -/

/-- How far the decimals below a double reach that round to it, in quarters. -/
def reachBelow (x : Double) : Nat :=
  if x.significand = 2 ^ 52 ∧ 0 < x.shift then x.place else 2 * x.place

theorem reads_of_lt {v : Nat} (hbelow : 4 * x.decimalUnits < 4 * v + x.reachBelow)
    (habove : 4 * v < 4 * x.decimalUnits + 2 * x.place) : x.reads v = true := by
  obtain ⟨five, hfive⟩ : ∃ five, Nat.pow 5 1074 = five := ⟨_, rfl⟩
  simp only [reachBelow, place_eq hfive, ← Nat.pow_eq] at hbelow habove
  unfold reads
  rw [hfive]
  dsimp only
  generalize Nat.pow 2 x.shift * five = place at hbelow habove ⊢
  generalize hreach : (if x.significand = Nat.pow 2 52 ∧ 0 < x.shift then place else 2 * place) =
    reach at hbelow ⊢
  split <;> exact decide_eq_true (by omega)

theorem le_of_reads {v : Nat} (h : x.reads v = true) :
    4 * x.decimalUnits ≤ 4 * v + 2 * x.place ∧ 4 * v ≤ 4 * x.decimalUnits + 2 * x.place := by
  obtain ⟨five, hfive⟩ : ∃ five, Nat.pow 5 1074 = five := ⟨_, rfl⟩
  rw [place_eq hfive]
  unfold reads at h
  rw [hfive] at h
  dsimp only at h
  generalize Nat.pow 2 x.shift * five = place at h ⊢
  have hreach : (if x.significand = Nat.pow 2 52 ∧ 0 < x.shift then place else 2 * place) ≤
      2 * place := by
    split <;> omega
  generalize (if x.significand = Nat.pow 2 52 ∧ 0 < x.shift then place else 2 * place) =
    reach at h hreach
  split at h <;> have h := of_decide_eq_true h <;> omega

theorem place_le_decimalUnits (hzero : x.isZero = false) : x.place ≤ x.decimalUnits := by
  rw [decimalUnits_eq]
  exact Nat.le_mul_of_pos_left _ (significand_pos hzero)

/-- Zero rounds to no other double. -/
theorem pos_of_reads {v : Nat} (hzero : x.isZero = false) (h : x.reads v = true) : 0 < v := by
  have hunits := (le_of_reads h).1
  have hplace := place_le_decimalUnits hzero
  have hpos := pow_sixteen_lt_place x
  generalize x.place = p at hunits hplace hpos
  generalize x.decimalUnits = u at hunits hplace
  omega

/-! ## The neighbours of a double -/

theorem nearest?_eq_some {tie : Tie} {place d : Nat} (h : x.nearest? tie place = some d) :
    x.reads (d * place) = true ∧ d ≤ x.decimalUnits / place + 1 := by
  unfold nearest? at h
  dsimp only at h
  split at h
  · rename_i hlow hhigh
    have hboth : ∀ lowFirst : Bool,
        x.reads ((if lowFirst then x.decimalUnits / place else x.decimalUnits / place + 1) * place) =
            true ∧
          (if lowFirst then x.decimalUnits / place else x.decimalUnits / place + 1) ≤
            x.decimalUnits / place + 1
      | true => ⟨hlow, Nat.le_add_right _ _⟩
      | false => ⟨hhigh, Nat.le_refl _⟩
    obtain rfl := Option.some.inj h
    exact hboth _
  · rename_i hlow _
    obtain rfl := Option.some.inj h
    exact ⟨hlow, Nat.le_add_right _ _⟩
  · rename_i _ hhigh
    obtain rfl := Option.some.inj h
    exact ⟨hhigh, Nat.le_refl _⟩
  · cases h

theorem isSome_nearest? {place : Nat} (tie : Tie)
    (h : x.reads (x.decimalUnits / place * place) = true ∨
      x.reads ((x.decimalUnits / place + 1) * place) = true) :
    (x.nearest? tie place).isSome = true := by
  unfold nearest?
  dsimp only
  split
  · rfl
  · rfl
  · rfl
  · rename_i hlow hhigh
    rw [hlow, hhigh] at h
    simp at h

/-- Where the places of the decimals are close enough, one of the neighbours rounds to the double. -/
theorem isSome_nearest?_of_lt {place : Nat} (tie : Tie) (hplace : 0 < place)
    (hreach : 2 * place < x.reachBelow) (habove : x.reachBelow ≤ 2 * x.place) :
    (x.nearest? tie place).isSome = true := by
  have hrest := Nat.mod_lt x.decimalUnits hplace
  have hunits := Nat.div_add_mod x.decimalUnits place
  rw [Nat.mul_comm] at hunits
  refine isSome_nearest? tie ?_
  by_cases hhalf : 2 * (x.decimalUnits % place) ≤ place
  · exact .inl (reads_of_lt (by omega) (by omega))
  · refine .inr (reads_of_lt ?_ ?_) <;> rw [Nat.add_mul, Nat.one_mul] <;> omega

theorem reachBelow_le (x : Double) : x.reachBelow ≤ 2 * x.place := by
  unfold reachBelow
  split <;> omega

/-! ## Seventeen digits -/

/-- The number of digits of a double in units of `10 ^ -1074`. -/
def digitCount (x : Double) : Nat := (Digits.ofNat x.decimalUnits).length

theorem seventeen_le_digitCount (hzero : x.isZero = false) : 17 ≤ x.digitCount := by
  have hlarge := Nat.lt_of_lt_of_le (pow_sixteen_lt_place x) (place_le_decimalUnits hzero)
  by_contra hcount
  have hsmall := (Digits.length_ofNat_le_iff (by decide)).1
    (show x.digitCount ≤ 16 from Nat.le_of_lt_succ (Nat.not_le.1 hcount))
  exact Nat.lt_asymm hlarge hsmall

theorem pow_digitCount_le (hzero : x.isZero = false) :
    10 ^ (x.digitCount - 1) ≤ x.decimalUnits := by
  have hcount := seventeen_le_digitCount hzero
  by_contra hlt
  have := (Digits.length_ofNat_le_iff (show 0 < x.digitCount - 1 by omega)).2 (Nat.not_le.1 hlt)
  have hle : x.digitCount ≤ x.digitCount - 1 := this
  omega

theorem lt_pow_digitCount (x : Double) : x.decimalUnits < 10 ^ x.digitCount :=
  (Digits.length_ofNat_le_iff Nat.length_toDigits_pos).1 (Nat.le_refl _)

/-- The seventeenth digit counts for less than half the reach of the double. -/
theorem two_mul_lt_reachBelow (hzero : x.isZero = false) :
    2 * 10 ^ (x.digitCount - 17) < x.reachBelow := by
  have hcount := seventeen_le_digitCount hzero
  have hunits : 10 ^ 16 * 10 ^ (x.digitCount - 17) ≤ x.significand * x.place := by
    rw [← decimalUnits_eq, ← Nat.pow_add]
    convert pow_digitCount_le hzero using 2
    omega
  have hpos := pow_sixteen_lt_place x
  have hlt := significand_lt x
  unfold reachBelow
  generalize 10 ^ (x.digitCount - 17) = p at hunits ⊢
  generalize x.place = place at hunits hpos ⊢
  split
  · rename_i htwo
    rw [htwo.1] at hunits
    omega
  · have hle : x.significand * place ≤ (2 ^ 53 - 1) * place :=
      Nat.mul_le_mul_right _ (Nat.le_sub_one_of_lt hlt)
    omega

theorem isSome_nearest?_seventeen (hzero : x.isZero = false) (tie : Tie) :
    (x.nearest? tie (10 ^ (x.digitCount - 17))).isSome = true :=
  isSome_nearest?_of_lt tie (Nat.pow_pos (by decide)) (two_mul_lt_reachBelow hzero)
    (reachBelow_le x)

/-! ## The digits -/

theorem exists_trimZeros (digits : List Char) :
    ∃ zeros, digits = trimZeros digits ++ List.replicate zeros '0' := by
  have hzeros : digits.reverse.takeWhile (· == '0') =
      List.replicate (digits.reverse.takeWhile (· == '0')).length '0' :=
    List.eq_replicate_of_mem fun c hc => by simpa using List.mem_takeWhile_imp hc
  refine ⟨(digits.reverse.takeWhile (· == '0')).length, ?_⟩
  rw [trimZeros, ← List.reverse_replicate, ← hzeros, ← List.reverse_append,
    List.takeWhile_append_dropWhile, List.reverse_reverse]

theorem value_trimZeros {digits : List Char} {zeros : Nat}
    (h : digits = trimZeros digits ++ List.replicate zeros '0') :
    Digits.value digits = Digits.value (trimZeros digits) * 10 ^ zeros := by
  conv_lhs => rw [h]
  rw [Digits.value_append, Digits.value_replicate_zero, List.length_replicate, Nat.add_zero,
    Nat.mul_comm]

/-- The digits of a decimal, without a zero in front, make a number of at most seventeen digits. With
its last digit at `place`, counted from `10 ^ -1074`, it rounds to the double. -/
structure Decimal.Denotes (d : Decimal) (x : Double) (place : Nat) : Prop where
  run : Digits.Run d.digits
  head : d.digits.head? ≠ some '0'
  value_le : Digits.value d.digits ≤ 10 ^ 17
  exponent : d.exponent = (place : Int) + d.digits.length - 1 - 1074
  reads : x.reads (Digits.value d.digits * 10 ^ place) = true

theorem exists_found (hzero : x.isZero = false) (tie : Tie) :
    ∃ i d, i < 17 ∧ x.nearest? tie (10 ^ (x.digitCount - (i + 1))) = some d ∧
      x.shortest tie = ⟨trimZeros (Digits.ofNat d),
        ((x.digitCount - (i + 1) : Nat) : Int) + (Digits.ofNat d).length - 1 - 1074⟩ := by
  cases hfound : (List.range 17).findSome? fun i =>
      (x.nearest? tie (Nat.pow 10 (x.digitCount - (i + 1)))).map
        fun d => (d, x.digitCount - (i + 1)) with
  | none =>
    -- The last try does not fail.
    have hlast := List.findSome?_eq_none_iff.1 hfound 16 (by decide)
    have hsome := isSome_nearest?_seventeen hzero tie
    rw [Option.map_eq_none_iff] at hlast
    exact absurd hsome (by rw [← Nat.pow_eq, hlast]; exact Bool.false_ne_true)
  | some pair =>
    obtain ⟨i, hi, hpair⟩ := List.exists_of_findSome?_eq_some hfound
    obtain ⟨d, hd, rfl⟩ := Option.map_eq_some_iff.1 hpair
    refine ⟨i, d, List.mem_range.1 hi, hd, ?_⟩
    unfold shortest
    rw [hzero, if_neg Bool.false_ne_true]
    unfold digitCount at hfound ⊢
    dsimp only
    rw [hfound, Option.getD_some]

/-- The number of the first digits, seventeen at most, and the one above it. -/
theorem succ_place_le (hzero : x.isZero = false) {i : Nat} (hi : i < 17) :
    x.decimalUnits / 10 ^ (x.digitCount - (i + 1)) + 1 ≤ 10 ^ 17 := by
  have hcount := seventeen_le_digitCount hzero
  have hunits : x.decimalUnits < 10 ^ (i + 1) * 10 ^ (x.digitCount - (i + 1)) := by
    rw [← Nat.pow_add, Nat.add_sub_cancel' (by omega)]
    exact lt_pow_digitCount x
  calc x.decimalUnits / 10 ^ (x.digitCount - (i + 1)) + 1
      ≤ 10 ^ (i + 1) := (Nat.div_lt_iff_lt_mul (Nat.pow_pos (by decide))).2 hunits
    _ ≤ 10 ^ 17 := Nat.pow_le_pow_right (by decide) hi

theorem denotes_shortest (hzero : x.isZero = false) (tie : Tie) :
    ∃ place, (x.shortest tie).Denotes x place := by
  obtain ⟨i, d, hi, hnearest, hshortest⟩ := exists_found hzero tie
  obtain ⟨hreads, hd⟩ := nearest?_eq_some hnearest
  obtain ⟨zeros, hzeros⟩ := exists_trimZeros (Digits.ofNat d)
  have hpos : 0 < d := Nat.pos_of_mul_pos_right (pos_of_reads hzero hreads)
  have hvalue : d = Digits.value (trimZeros (Digits.ofNat d)) * 10 ^ zeros := by
    rw [← value_trimZeros hzeros, Digits.value_ofNat]
  have hlength : (Digits.ofNat d).length = (trimZeros (Digits.ofNat d)).length + zeros := by
    conv_lhs => rw [hzeros]
    rw [List.length_append, List.length_replicate]
  have hne : trimZeros (Digits.ofNat d) ≠ [] := by
    intro hnil
    rw [hnil] at hvalue
    exact absurd (hvalue.trans (Nat.zero_mul _)) (Nat.ne_of_gt hpos)
  have hsmall : d ≤ 10 ^ 17 := Nat.le_trans hd (succ_place_le hzero hi)
  refine ⟨x.digitCount - (i + 1) + zeros, ?_⟩
  rw [hshortest]
  refine ⟨⟨hne, fun c hc => ?_⟩, fun hhead => ?_, ?_, ?_, ?_⟩
  · refine Digits.isDigit_of_mem_ofNat (n := d) ?_
    rw [hzeros]
    exact List.mem_append_left _ hc
  · have hfirst : (Digits.ofNat d).head? = some '0' := by
      rw [hzeros, List.head?_append, show (trimZeros (Digits.ofNat d)).head? = some '0' from hhead]
      rfl
    exact Nat.ne_of_gt hpos (Digits.head?_ofNat hfirst)
  · calc Digits.value (trimZeros (Digits.ofNat d))
        ≤ Digits.value (trimZeros (Digits.ofNat d)) * 10 ^ zeros :=
          Nat.le_mul_of_pos_right _ (Nat.pow_pos (by decide))
      _ = d := hvalue.symm
      _ ≤ 10 ^ 17 := hsmall
  · simp only [hlength]
    omega
  · show x.reads (Digits.value (trimZeros (Digits.ofNat d)) * 10 ^ (x.digitCount - (i + 1) + zeros)) =
      true
    rw [Nat.add_comm, Nat.pow_add, ← Nat.mul_assoc, ← hvalue]
    exact hreads

end Double
end Workflow
