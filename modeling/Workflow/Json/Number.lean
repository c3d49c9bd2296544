import Workflow.Json
import Workflow.Text.Digits

/-! # Workflow.Json.Number

JSON numbers: their spelling, and the number that a spelling stands for.

* `Spelling.read`: an optional minus sign, digits without a leading zero, then a fraction and an
  exponent, each optional and with one digit at least.
* `Spelling.number?`: without fraction and exponent a number that fits 64 bits is an integer, but
  for `-0`; every other is a double. None if its magnitude is too large for a double.
-/

namespace Workflow
namespace Json

/-- A number as it is written. No fraction is an empty `fraction`. -/
structure Spelling where
  negative : Bool
  whole : List Char
  fraction : List Char
  exponent : Option Int
  deriving DecidableEq

namespace Spelling

def takeDigits (input : List Char) : List Char × List Char := input.span Char.isDigit

def readWhole : List Char → Option (List Char × List Char)
  | '0' :: rest => if (rest.head?.any Char.isDigit) then none else some (['0'], rest)
  | input =>
    let (digits, rest) := takeDigits input
    if digits.isEmpty then none else some (digits, rest)

def readFraction : List Char → Option (List Char × List Char)
  | '.' :: rest =>
    let (digits, rest) := takeDigits rest
    if digits.isEmpty then none else some (digits, rest)
  | input => some ([], input)

def exponentSign : List Char → Bool × List Char
  | '+' :: rest => (false, rest)
  | '-' :: rest => (true, rest)
  | input => (false, input)

def readExponent : List Char → Option (Option Int × List Char)
  | [] => some (none, [])
  | c :: rest =>
    if c = 'e' ∨ c = 'E' then
      let (negative, rest) := exponentSign rest
      let (digits, rest) := takeDigits rest
      if digits.isEmpty then none
      else
        let magnitude : Int := Digits.value digits
        some (some (if negative then -magnitude else magnitude), rest)
    else some (none, c :: rest)

def readUnsigned (negative : Bool) (input : List Char) : Option (Spelling × List Char) := do
  let (whole, rest) ← readWhole input
  let (fraction, rest) ← readFraction rest
  let (exponent, rest) ← readExponent rest
  return (⟨negative, whole, fraction, exponent⟩, rest)

def read : List Char → Option (Spelling × List Char)
  | '-' :: rest => readUnsigned true rest
  | input => readUnsigned false input

/-- Adds digits to a number while it fits 64 bits; from the first that does not fit, the rest stays
behind. -/
def absorb (n : Nat) : List Char → Nat × List Char
  | [] => (n, [])
  | c :: digits =>
    let next := 10 * n + Digits.digit c
    if next < Nat.pow 2 64 then absorb next digits else (n, c :: digits)

/-- Divides by a power of ten, in steps of at most `10 ^ 308`. -/
def scaleDown (x : Double) (places : Nat) : Double :=
  if places ≤ 308 then x.div (Double.ofNat (Nat.pow 10 places))
  else if x.isZero then x
  else scaleDown (x.div (Double.ofNat (Nat.pow 10 308))) (places - 308)
termination_by places

/-- The double for `significand * 10 ^ exponent`. The significand and the power of ten are rounded
to doubles first, and the result once more. -/
def scaled? (significand : Nat) (exponent : Int) : Option Double :=
  let x := Double.ofNat significand
  if exponent < 0 then some (scaleDown x exponent.natAbs)
  else if x.isZero then some x
  else if 308 < exponent then none
  else
    let y := x.mul (Double.ofNat (Nat.pow 10 exponent.natAbs))
    if y.isInfinite then none else some y

/-- The double that a spelling stands for. As many digits count as fit 64 bits; a whole digit left
out is a power of ten. -/
def double? (s : Spelling) : Option Double := do
  let (wholePart, left) := absorb 0 s.whole
  let (significand, unused) := absorb wholePart s.fraction
  let used := s.fraction.length - unused.length
  let exponent := (left.length : Int) - used + s.exponent.getD 0
  let x ← scaled? significand exponent
  return if s.negative then x.neg else x

def number? (s : Spelling) : Option Json :=
  let n := Digits.value s.whole
  if s.fraction.isEmpty && s.exponent.isNone && n < Nat.pow 2 64 then
    if !s.negative then some (.integer n)
    else if n = 0 ∨ Nat.pow 2 63 < n then some (.double (Double.ofNat n).neg)
    else some (.integer (-n))
  else s.double?.map .double

end Spelling
end Json
end Workflow
