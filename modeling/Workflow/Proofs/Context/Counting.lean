import Workflow.Context
import Workflow.Proofs.Table
import Workflow.Proofs.Text.LeadingInt
import Workflow.Value.Text

/-! # Workflow.Proofs.Context.Counting

Counting in a context where an integer stands under the key, and where its decimal text does.

* `clamped`: the nearest of the 64-bit integers, which is what a sum is held to.
* `leadingInt?_ofInt`: the integer that is read off a decimal text. Sign and magnitude are read
  apart, and the magnitude of the least 64-bit integer is no 64-bit integer itself.
* `integer_and_text_count_alike`: both count alike, the least integer excepted, whose text counts
  one more.
-/

namespace Workflow

/-- The nearest of the 64-bit integers. -/
def clamped (i : Int) : Int := max Int64.minValue.toInt (min i Int64.maxValue.toInt)

theorem clamped_eq (i : Int) :
    clamped i = max (-9223372036854775808) (min i 9223372036854775807) := by
  have hmin : Int64.minValue.toInt = -9223372036854775808 := by decide
  have hmax : Int64.maxValue.toInt = 9223372036854775807 := by decide
  rw [clamped, hmin, hmax]

theorem toInt_ofIntClamp (i : Int) : (Int64.ofIntClamp i).toInt = clamped i := by
  have hmin : Int64.minValue.toInt = -2 ^ 63 := Int64.toInt_minValue
  have hmax : Int64.maxValue.toInt = 2 ^ 63 - 1 := Int64.toInt_maxValue
  unfold Int64.ofIntClamp clamped
  split
  · split
    · rw [Int64.toInt_ofIntLE]
      omega
    · omega
  · omega

/-- The integer that a decimal text begins with is the one that it is the text of, held between the
largest one and its negative. -/
theorem leadingInt?_ofInt (i : Int) :
    leadingInt? (Digits.ofInt i) =
      some (Int64.ofInt (max (-Int64.maxValue.toInt) (min i Int64.maxValue.toInt))) := by
  have hmax : Int64.maxValue.toInt = 2 ^ 63 - 1 := Int64.toInt_maxValue
  have hmagnitude : (Numbered.ofInt i).magnitude = i.natAbs := Digits.value_ofNat i.natAbs
  have hsign : (Numbered.ofInt i).sign = .minus ↔ i < 0 := by simp [Numbered.ofInt, Numbered.ofNat]
  rw [← Numbered.chars_ofInt, Numbered.leadingInt?_chars, hmagnitude]
  simp only [hsign]
  refine congrArg (fun i => some (Int64.ofInt i)) ?_
  split <;> omega

/-! ## Counting -/

namespace Context

theorem toInt_saturatingAdd (a b : Int64) :
    (saturatingAdd a b).toInt = clamped (a.toInt + b.toInt) := toInt_ofIntClamp _

/-- The integer that the decimal text of another one counts as. -/
theorem toInt_countOf_displayText (n : Int64) :
    (countOf (some (.text (Value.int n).displayText))).toInt =
      max n.toInt (Int64.minValue.toInt + 1) := by
  have hmin : Int64.minValue.toInt = -2 ^ 63 := Int64.toInt_minValue
  have hmax : Int64.maxValue.toInt = 2 ^ 63 - 1 := Int64.toInt_maxValue
  have hle := n.le_toInt
  have hlt := n.toInt_lt
  have hread : leadingInt? (Value.int n).displayText.toList = _ :=
    (congrArg leadingInt? String.toList_ofList).trans (leadingInt?_ofInt n.toInt)
  rw [countOf, hread, Option.getD_some, Int64.toInt_ofInt_of_le (by omega) (by omega)]
  omega

theorem insert_insert {α β : Type} [ToValue α] [ToValue β] (c : Context) (key : String) (first : α)
    (second : β) : (c.insert key first).insert key second = c.insert key second :=
  congrArg Context.mk (c.values.insert_insert key (toValue first) (toValue second))

theorem get?_insert_self {α : Type} [ToValue α] (c : Context) (key : String) (value : α) :
    (c.insert key value).get? key = some (toValue value) := by
  simp [Context.insert, Context.get?, Table.get?_insert]

/-- Counting from what was written last under the key. -/
theorem incremented_insert {α : Type} [ToValue α] (c : Context) (key : String) (value : α)
    (amount : Int64) : (c.insert key value).incremented key amount =
      saturatingAdd (countOf (some (toValue value))) amount := by
  rw [incremented, get?_insert_self]

theorem increment_insert {α : Type} [ToValue α] (c : Context) (key : String) (value : α)
    (amount : Int64) : (c.insert key value).increment key amount =
      c.insert key (saturatingAdd (countOf (some (toValue value))) amount) := by
  rw [increment, insert_insert, incremented_insert]

end Context

/-- Under a key an integer and its decimal text are counted on alike: the count is the sum, held
within the 64-bit integers, and it stands under the key afterwards. The text of the least integer
counts as the next one, so there the two come to the same only where the sum falls below the 64-bit
integers for both. -/
theorem integer_and_text_count_alike (c : Context) (key : String) (n amount : Int64) :
    ((c.insert key n).incremented key amount).toInt = clamped (n.toInt + amount.toInt) ∧
    (c.insert key n).increment key amount =
      c.insert key ((c.insert key n).incremented key amount) ∧
    ((c.insert key (Value.int n).displayText).incremented key amount).toInt =
      clamped (max n.toInt (Int64.minValue.toInt + 1) + amount.toInt) ∧
    ((c.insert key (Value.int n).displayText).incremented key amount =
        (c.insert key n).incremented key amount ∧
      (c.insert key (Value.int n).displayText).increment key amount =
        (c.insert key n).increment key amount ↔
      n ≠ Int64.minValue ∨ amount < 0) := by
  have hmin : Int64.minValue.toInt = -2 ^ 63 := Int64.toInt_minValue
  have hmax : Int64.maxValue.toInt = 2 ^ 63 - 1 := Int64.toInt_maxValue
  have hle := n.le_toInt
  have hlt := n.toInt_lt
  have hamount := amount.toInt_lt
  have hcount : ((c.insert key n).incremented key amount).toInt =
      clamped (n.toInt + amount.toInt) := by
    rw [Context.incremented_insert]
    exact Context.toInt_saturatingAdd n amount
  have htext : ((c.insert key (Value.int n).displayText).incremented key amount).toInt =
      clamped (max n.toInt (Int64.minValue.toInt + 1) + amount.toInt) := by
    rw [Context.incremented_insert, Context.toInt_saturatingAdd]
    exact congrArg (fun i => clamped (i + amount.toInt)) (Context.toInt_countOf_displayText n)
  refine ⟨hcount, ?_, htext, ?_⟩
  · rw [Context.increment_insert, Context.incremented_insert]
  · have hleast : n = Int64.minValue ↔ n.toInt = -2 ^ 63 := by rw [← hmin, Int64.toInt_inj]
    have hnegative : amount < 0 ↔ amount.toInt < 0 := Int64.lt_iff_toInt_lt
    have hsame : (c.insert key (Value.int n).displayText).incremented key amount =
        (c.insert key n).incremented key amount ↔ n ≠ Int64.minValue ∨ amount < 0 := by
      rw [← Int64.toInt_inj, hcount, htext, Ne, hleast, hnegative]
      unfold clamped
      omega
    rw [← hsame]
    refine and_iff_left_of_imp fun h => ?_
    simp only [Context.incremented_insert] at h
    rw [Context.increment_insert, Context.increment_insert, h]

/-- Counting by zero from the least integer stays there, and from its text it does not. -/
theorem text_of_least_counts_one_more :
    (Value.int Int64.minValue).displayText = "-9223372036854775808" ∧
    (Context.empty.insert "n" Int64.minValue).incremented "n" 0 = Int64.minValue ∧
    (Context.empty.insert "n" "-9223372036854775808").incremented "n" 0 =
      Int64.minValue + 1 := by
  refine ⟨?_, ?_, ?_⟩ <;> decide

end Workflow
