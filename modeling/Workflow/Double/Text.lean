import Workflow.Double.Shortest

/-! # Workflow.Double.Text

The text of a finite double: its shortest digits, set out as a `Style` says. `Style.plain` is that
of messages, `Style.json` that of JSON documents.
-/

namespace Workflow
namespace Double

/-- How the digits of a number are set out. Where `positional` holds of the exponent of the first
digit the number is written without an exponent, and with a fraction `.0` if it is whole and
`wholeFraction` is set. -/
structure Style where
  tie : Tie
  positional : Int → Bool
  wholeFraction : Bool

/-- Never an exponent, and no fraction on a whole number. -/
def Style.plain : Style := ⟨.up, fun _ => true, false⟩

/-- Exponents from -5 to 15 are written out, always with a fraction. -/
def Style.json : Style := ⟨.even, fun e => -5 ≤ e && e ≤ 15, true⟩

/-- The number in positional form. -/
def Decimal.positional (d : Decimal) (wholeFraction : Bool) : List Char :=
  if d.exponent < 0 then
    '0' :: '.' :: (List.replicate (d.exponent.natAbs - 1) '0' ++ d.digits)
  else
    let whole := d.exponent.toNat + 1
    if d.digits.length ≤ whole then
      d.digits ++ List.replicate (whole - d.digits.length) '0'
        ++ if wholeFraction then ['.', '0'] else []
    else d.digits.take whole ++ '.' :: d.digits.drop whole

/-- The number with one digit before the point and a signed exponent. -/
def Decimal.scientific (d : Decimal) : List Char :=
  let fraction := if d.digits.length ≤ 1 then [] else '.' :: d.digits.drop 1
  let sign := if d.exponent < 0 then '-' else '+'
  d.digits.take 1 ++ fraction ++ 'e' :: sign :: Digits.ofNat d.exponent.natAbs

def Style.text (style : Style) (x : Double) : List Char :=
  let d := x.shortest style.tie
  let sign := if x.negative then ['-'] else []
  sign ++ if style.positional d.exponent then d.positional style.wholeFraction else d.scientific

end Double
end Workflow
