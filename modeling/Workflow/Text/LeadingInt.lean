import Workflow.Text.Blank
import Workflow.Text.Digits

/-! # Workflow.Text.LeadingInt

The integer that a text begins with: blanks, at most one sign, then at least one digit from `0` to
`9`. What follows the digits does not matter. A number too large counts as the largest integer, and
with a minus sign as its negative.
-/

namespace Workflow

/-- The sign in front of a text, true for a minus, and the text behind it. -/
def splitSign : List Char → Bool × List Char
  | '-' :: rest => (true, rest)
  | '+' :: rest => (false, rest)
  | text => (false, text)

def leadingInt? (text : List Char) : Option Int64 :=
  let (negative, rest) := splitSign (text.dropWhile isBlank)
  let digits := rest.takeWhile Char.isDigit
  if digits.isEmpty then none
  else
    let magnitude : Int := min (Digits.value digits) Int64.maxValue.toInt
    some (Int64.ofInt (if negative then -magnitude else magnitude))

end Workflow
