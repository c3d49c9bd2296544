import Mathlib.Algebra.Group.Nat.Defs
import Workflow.Text.Digits

/-! # Workflow.Proofs.Text.Digits

The value of a run of digits by its parts.

* `Digits.value_cons`, `Digits.value_append`, `Digits.value_replicate_zero`: runs put together.
* `Digits.value_lt`, `Digits.digit_le_value`: bounds on the value.
* `Digits.length_ofNat_le_iff`, `Digits.pow_le`: bounds on the number of digits.
-/

namespace Workflow
namespace Digits

/-- Digits, one at least. -/
structure Run (digits : List Char) : Prop where
  ne_nil : digits ≠ []
  isDigit : ∀ c ∈ digits, c.isDigit = true

theorem run_ofNat (n : Nat) : Run (ofNat n) := ⟨ofNat_ne_nil n, fun _ => isDigit_of_mem_ofNat⟩

theorem run_singleton {c : Char} (h : c.isDigit = true) : Run [c] :=
  ⟨List.cons_ne_nil c [], fun _ hmem => List.mem_singleton.1 hmem ▸ h⟩

theorem Run.append {digits more : List Char} (h : Run digits)
    (hmore : ∀ c ∈ more, c.isDigit = true) : Run (digits ++ more) :=
  ⟨by simp [h.ne_nil], fun c hc => (List.mem_append.1 hc).elim (h.isDigit c) (hmore c)⟩

/-! ## Values -/

theorem value_eq_ofDigitChars (digits : List Char) : value digits = Nat.ofDigitChars 10 digits 0 :=
  Nat.ofDigitChars_eq_foldl.symm

theorem value_append (digits more : List Char) :
    value (digits ++ more) = 10 ^ more.length * value digits + value more := by
  simp only [value_eq_ofDigitChars]
  rw [Nat.ofDigitChars_append, Nat.ofDigitChars_eq_ofDigitChars_zero]

theorem value_singleton (c : Char) : value [c] = digit c := Nat.zero_add _

theorem value_cons (c : Char) (digits : List Char) :
    value (c :: digits) = 10 ^ digits.length * digit c + value digits := by
  rw [← List.singleton_append, value_append, value_singleton]

theorem value_replicate_zero (n : Nat) : value (List.replicate n '0') = 0 := by
  rw [value_eq_ofDigitChars, Nat.ofDigitChars_replicate_zero, Nat.mul_zero]

/-! ## Bounds -/

theorem toNat_of_isDigit {c : Char} (h : c.isDigit = true) : 48 ≤ c.toNat ∧ c.toNat ≤ 57 :=
  Char.isDigit_iff_toNat.1 h

theorem digit_lt {c : Char} (h : c.isDigit = true) : digit c < 10 := by
  have hc := toNat_of_isDigit h
  show c.toNat - 48 < 10
  omega

theorem eq_zero_of_digit {c : Char} (h : c.isDigit = true) (hzero : digit c = 0) : c = '0' := by
  have hc := toNat_of_isDigit h
  have hdigit : c.toNat - 48 = 0 := hzero
  exact Char.toNat_inj.1 (show c.toNat = 48 by omega)

theorem value_lt {digits : List Char} (h : ∀ c ∈ digits, c.isDigit = true) :
    value digits < 10 ^ digits.length := by
  induction digits with
  | nil => exact Nat.one_pos
  | cons c digits ih =>
    have hc := digit_lt (h c List.mem_cons_self)
    have hdigits := ih fun d hd => h d (List.mem_cons_of_mem c hd)
    rw [value_cons, List.length_cons, Nat.pow_succ]
    calc 10 ^ digits.length * digit c + value digits
        < 10 ^ digits.length * digit c + 10 ^ digits.length := by omega
      _ = 10 ^ digits.length * (digit c + 1) := by rw [Nat.mul_add, Nat.mul_one]
      _ ≤ 10 ^ digits.length * 10 := Nat.mul_le_mul_left _ hc

/-- A digit in front that is not zero gives the value its size. -/
theorem pow_le_value {c : Char} {digits : List Char} (hdigit : c.isDigit = true) (hc : c ≠ '0') :
    10 ^ digits.length ≤ value (c :: digits) := by
  have hpos : 0 < digit c := Nat.pos_of_ne_zero fun hzero => hc (eq_zero_of_digit hdigit hzero)
  rw [value_cons]
  calc 10 ^ digits.length = 10 ^ digits.length * 1 := (Nat.mul_one _).symm
    _ ≤ 10 ^ digits.length * digit c := Nat.mul_le_mul_left _ hpos
    _ ≤ 10 ^ digits.length * digit c + value digits := Nat.le_add_right _ _

theorem length_ofNat_le_iff {n k : Nat} (hk : 0 < k) : (ofNat n).length ≤ k ↔ n < 10 ^ k :=
  Nat.length_toDigits_le_iff (by decide) hk

end Digits
end Workflow
