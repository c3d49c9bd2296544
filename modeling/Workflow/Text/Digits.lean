/-! # Workflow.Text.Digits

Whole numbers and their decimal digits. `ofNat` writes a number, `value` reads a run of digits of
any length, leading zeros allowed.

* `value_ofNat`: a number is the value of its digits.
* `head?_ofNat`: only the number 0 is written with a zero in front.
-/

namespace Workflow
namespace Digits

def ofNat (n : Nat) : List Char := Nat.toDigits 10 n

def ofInt (i : Int) : List Char := if i < 0 then '-' :: ofNat i.natAbs else ofNat i.natAbs

/-- The value of one digit, for a character from `0` to `9`. -/
def digit (c : Char) : Nat := c.toNat - '0'.toNat

def value (digits : List Char) : Nat := digits.foldl (fun n c => 10 * n + digit c) 0

theorem value_ofNat (n : Nat) : value (ofNat n) = n := by
  have h : Nat.ofDigitChars 10 (Nat.toDigits 10 n) 0 = n := Nat.ofDigitChars_ten_toDigits
  rwa [Nat.ofDigitChars_eq_foldl] at h

theorem ofNat_ne_nil (n : Nat) : ofNat n ≠ [] := Nat.toDigits_ne_nil

theorem isDigit_of_mem_ofNat {n : Nat} {c : Char} (h : c ∈ ofNat n) : c.isDigit = true :=
  Nat.isDigit_of_mem_toDigits (by decide) (Nat.le_refl 10) h

theorem head?_ofNat_append (n : Nat) (rest : List Char) :
    (ofNat n ++ rest).head? = (ofNat n).head? := by
  cases h : ofNat n with
  | nil => exact absurd h (ofNat_ne_nil n)
  | cons c digits => rfl

theorem head?_ofNat {n : Nat} (h : (ofNat n).head? = some '0') : n = 0 := by
  induction n using Nat.strongRecOn with
  | _ n ih =>
    by_cases hlt : n < 10
    · rw [ofNat, Nat.toDigits_of_lt_base hlt] at h
      simpa using h
    · have hdigits : ofNat n = ofNat (n / 10) ++ [Nat.digitChar (n % 10)] :=
        Nat.toDigits_of_base_le (by decide) (by omega)
      rw [hdigits, head?_ofNat_append] at h
      have := ih (n / 10) (by omega) h
      omega

end Digits
end Workflow
