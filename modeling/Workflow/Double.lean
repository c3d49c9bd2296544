/-! # Workflow.Double

Double precision numbers as their 64 bits, with exact arithmetic on natural numbers. Every finite
double is a whole number of units of `2 ^ -1074`, the least positive one; `units` is that number,
without the sign. A result that is no double is the nearest one, a tie going to the one with the
even last bit (`ofRatio`), and infinity from half a unit above the largest on.
-/

namespace Workflow

structure Double where
  bits : UInt64
  deriving DecidableEq

namespace Double

/-- The bits of positive infinity; the magnitudes above it are those of the NaNs. -/
def infinityBits : Nat := 0x7ff0000000000000

def negative (x : Double) : Bool := Nat.pow 2 63 ≤ x.bits.toNat

/-- The bits without the sign. They grow with the magnitude of the number. -/
def magnitudeBits (x : Double) : Nat := x.bits.toNat % Nat.pow 2 63

def isNaN (x : Double) : Bool := infinityBits < x.magnitudeBits

def isFinite (x : Double) : Bool := x.magnitudeBits < infinityBits

def isInfinite (x : Double) : Bool := x.magnitudeBits == infinityBits

def isZero (x : Double) : Bool := x.magnitudeBits == 0

/-- The place of the last bit of a finite double, counted from that of the least one. -/
def shift (x : Double) : Nat := x.magnitudeBits / Nat.pow 2 52 - 1

/-- The significand of a finite double, a whole number below `2 ^ 53`. -/
def significand (x : Double) : Nat :=
  let fraction := x.magnitudeBits % Nat.pow 2 52
  if x.magnitudeBits < Nat.pow 2 52 then fraction else Nat.pow 2 52 + fraction

/-- The magnitude of a finite double in units of `2 ^ -1074`. -/
def units (x : Double) : Nat := x.significand * Nat.pow 2 x.shift

def ofMagnitude (negative : Bool) (magnitude : Nat) : Double :=
  ⟨UInt64.ofNat (if negative then Nat.pow 2 63 + magnitude else magnitude)⟩

def zero : Double := ofMagnitude false 0

def infinity (negative : Bool) : Double := ofMagnitude negative infinityBits

/-- The NaN that every NaN is written as. -/
def nan : Double := ofMagnitude false (infinityBits + Nat.pow 2 51)

/-- The whole number nearest to `num / den`; a tie goes to the even one. -/
def roundDiv (num den : Nat) : Nat :=
  let q := num / den
  let r := num % den
  if 2 * r < den then q
  else if den < 2 * r then q + 1
  else q + q % 2

/-- The bits of the double nearest to `num / den` units. Within the doubles with one last place the
bits count those places, so a carry out of the significand comes out right by itself. -/
def roundUnits (num den : Nat) : Nat :=
  let shift := (num / den).log2 - 52
  min infinityBits (shift * Nat.pow 2 52 + roundDiv num (den * Nat.pow 2 shift))

/-- The double nearest to `num / den`, with the given sign. -/
def ofRatio (negative : Bool) (num den : Nat) : Double :=
  ofMagnitude negative (roundUnits (num * Nat.pow 2 1074) den)

def ofNat (n : Nat) : Double := ofRatio false n 1

def ofInt (i : Int) : Double := ofRatio (i < 0) i.natAbs 1

def neg (x : Double) : Double := ofMagnitude (!x.negative) x.magnitudeBits

def mul (x y : Double) : Double :=
  let negative := x.negative != y.negative
  if x.isNaN || y.isNaN then nan
  else if x.isInfinite || y.isInfinite then
    if x.isZero || y.isZero then nan else infinity negative
  else ofRatio negative (x.units * y.units) (Nat.pow 2 2148)

def div (x y : Double) : Double :=
  let negative := x.negative != y.negative
  if x.isNaN || y.isNaN then nan
  else if x.isInfinite then
    if y.isInfinite then nan else infinity negative
  else if y.isInfinite then ofMagnitude negative 0
  else if y.isZero then
    if x.isZero then nan else infinity negative
  else ofRatio negative x.units y.units

/-- The position of a number on the line: its magnitude's bits, signed. Both zeros are at 0. -/
def rank (x : Double) : Int := if x.negative then -(x.magnitudeBits : Int) else x.magnitudeBits

/-- Equality of numbers: the two zeros are equal, and a NaN equals nothing. -/
def same (x y : Double) : Bool := !x.isNaN && !y.isNaN && x.rank == y.rank

def lt (x y : Double) : Bool := !x.isNaN && !y.isNaN && x.rank < y.rank

/-- The whole part, held within the 64-bit integers; 0 for a NaN. -/
def truncate (x : Double) : Int64 :=
  if x.isNaN then 0
  else
    let whole : Int := if x.isFinite then (x.units / Nat.pow 2 1074 : Nat) else Nat.pow 2 63
    Int64.ofIntClamp (if x.negative then -whole else whole)

end Double
end Workflow
