import Workflow.Json.Reader
import Workflow.Proofs.Json.Literal

/-! # Workflow.Proofs.Json.Reader

What the reader does with the first character that is no blank.

* `scalar_literal`: the reader in front of a number.
* `value_of_bracket`, `value_of_brace`, `value_of_other`: lists, objects and other values.
-/

namespace Workflow
namespace Json

namespace Reader

theorem skipSpace_cons {c : Char} (h : isSpace c = false) (rest : List Char) :
    skipSpace (c :: rest) = c :: rest := by
  simp [skipSpace, h]

/-- What is taken neither for a blank nor for the closing bracket. -/
def Opens (close : Char) (part : List Char) : Prop :=
  ∃ c rest, part = c :: rest ∧ isSpace c = false ∧ c ≠ close

/-! ## Numbers -/

theorem scalar_literal {rest : List Char} (hrest : Spelling.Ends rest) (l : Literal) :
    scalar (l.chars ++ rest) = l.spelling.number?.map fun json => (json, rest) := by
  have hread := l.read_chars hrest
  obtain ⟨c, tail, hinput, hc⟩ := l.head_chars
  rw [hinput, List.cons_append] at hread ⊢
  unfold scalar
  split
  case h_5 => cases hnumber : l.spelling.number? <;> simp [hread, hnumber]
  -- None of the words begins as a number does, nor does a quote.
  all_goals
    rename_i heq
    obtain ⟨rfl, -⟩ := List.cons.inj heq
    simp at hc

/-! ## By the first character that is no blank -/

/-- Neither a list nor an object is opened. -/
def Plain (input : List Char) : Prop :=
  ∀ tail, skipSpace input ≠ '[' :: tail ∧ skipSpace input ≠ '\x7b' :: tail

theorem opening_cases (input : List Char) :
    (∃ rest, skipSpace input = '[' :: rest) ∨ (∃ rest, skipSpace input = '\x7b' :: rest) ∨
      Plain input := by
  by_cases hlist : ∃ rest, skipSpace input = '[' :: rest
  · exact .inl hlist
  · by_cases hobject : ∃ rest, skipSpace input = '\x7b' :: rest
    · exact .inr (.inl hobject)
    · exact .inr (.inr fun tail => ⟨fun h => hlist ⟨tail, h⟩, fun h => hobject ⟨tail, h⟩⟩)

variable {depth : Nat} {input rest : List Char}

theorem value_of_bracket (h : skipSpace input = '[' :: rest) :
    value (depth + 1) input = (items (value depth) ']' rest).map (Prod.map .array id) := by
  simp only [value, h]
  cases items (value depth) ']' rest <;> rfl

theorem value_of_brace (h : skipSpace input = '\x7b' :: rest) :
    value (depth + 1) input =
      (items (field (value depth)) '\x7d' rest).map (Prod.map .object id) := by
  simp only [value, h]
  cases items (field (value depth)) '\x7d' rest <;> rfl

theorem value_zero_of_bracket (h : skipSpace input = '[' :: rest) : value 0 input = none := by
  simp only [value, h]

theorem value_zero_of_brace (h : skipSpace input = '\x7b' :: rest) : value 0 input = none := by
  simp only [value, h]

theorem value_of_other (h : Plain input) : value depth input = scalar (skipSpace input) := by
  cases depth <;> rw [value] <;> split
  case _ heq => exact absurd heq (h _).1
  case _ heq => exact absurd heq (h _).2
  case _ => rfl
  case _ heq => exact absurd heq (h _).1
  case _ heq => exact absurd heq (h _).2
  case _ => rfl

end Reader
end Json
end Workflow
