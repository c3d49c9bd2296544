import Workflow.Text.Literal

/-! # Workflow.Queue.Listing

The names of a queue's tasks as text, on one line or one name a line.
-/

namespace Workflow
namespace Listing

def inLine (names : List String) : String :=
  "[" ++ ", ".intercalate (names.map Literal.quote) ++ "]"

def line (name : String) : String := "    " ++ Literal.quote name ++ ",\n"

def lines (names : List String) : String :=
  if names.isEmpty then "[]" else "[\n" ++ String.join (names.map line) ++ "]"

end Listing
end Workflow
