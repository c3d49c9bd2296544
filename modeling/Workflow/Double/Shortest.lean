import Workflow.Double
import Workflow.Text.Digits

/-! # Workflow.Double.Shortest

The fewest decimal digits that read back to a double. A finite double is a whole number of units of
`10 ^ -1074`, since it is one of units of `2 ^ -1074`, so both neighbours of a double among the
decimals with `n` digits are found by one division, and all comparisons are exact.

* `reads x v`: the decimals that round to `x`. The ends of that interval belong to it when the last
  bit of `x` is even.
* `nearest? x tie place`: the neighbour of `x` with last place `place` that reads back to `x`.
* `shortest x tie`: the first such decimal over `1, 2, …, 17` digits.
-/

namespace Workflow
namespace Double

/-- Which of two decimals is taken that are equally close. -/
inductive Tie where
  | up
  | even
  deriving DecidableEq

/-- The decimal `d₀.d₁d₂… * 10 ^ exponent`. -/
structure Decimal where
  digits : List Char
  exponent : Int
  deriving DecidableEq

/-- The magnitude of a finite double in units of `10 ^ -1074`. -/
def decimalUnits (x : Double) : Nat := x.units * Nat.pow 5 1074

/-- The decimal `v`, in units of `10 ^ -1074`, rounds to `x`. The numbers that round to a double
reach half way to each neighbour, and below a power of two that is half as far. -/
def reads (x : Double) (v : Nat) : Bool :=
  let place := Nat.pow 2 x.shift * Nat.pow 5 1074
  let below := if x.significand = Nat.pow 2 52 ∧ 0 < x.shift then place else 2 * place
  let above := 2 * place
  let distance : Int := 4 * (v : Int) - 4 * (x.decimalUnits : Int)
  if x.significand % 2 = 0 then -below ≤ distance ∧ distance ≤ above
  else -below < distance ∧ distance < above

/-- Of the two multiples of `place` next to `x`, `low` and `low + 1` times it, the closest one that
reads back to `x`. -/
def nearest? (x : Double) (tie : Tie) (place : Nat) : Option Nat :=
  let low := x.decimalUnits / place
  let rest := x.decimalUnits % place
  let lowFirst : Bool :=
    if 2 * rest = place then tie == .even && low % 2 == 0 else 2 * rest < place
  match x.reads (low * place), x.reads ((low + 1) * place) with
  | true, true => some (if lowFirst then low else low + 1)
  | true, false => some low
  | false, true => some (low + 1)
  | false, false => none

def trimZeros (digits : List Char) : List Char := (digits.reverse.dropWhile (· == '0')).reverse

/-- The shortest decimal that reads back to the magnitude of a finite double. -/
def shortest (x : Double) (tie : Tie) : Decimal :=
  if x.isZero then ⟨['0'], 0⟩
  else
    let count := (Digits.ofNat x.decimalUnits).length
    let found := (List.range 17).findSome? fun i =>
      (x.nearest? tie (Nat.pow 10 (count - (i + 1)))).map fun d => (d, count - (i + 1))
    let (d, place) := found.getD (x.decimalUnits, 0)
    let digits := Digits.ofNat d
    ⟨trimZeros digits, (place : Int) + digits.length - 1 - 1074⟩

end Double
end Workflow
