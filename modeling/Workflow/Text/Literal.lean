import Workflow.Text.Extending
import Workflow.Text.Unmarked

/-! # Workflow.Text.Literal

Text between quotes, as log records show it: every character that leaves a mark of its own stands as
it is, the quote and the backslash behind a backslash, and the others as an escape. A character that
extends the one before it has no mark of its own, so it is an escape too, wherever it stands.
-/

namespace Workflow
namespace Literal

def standsAlone (c : Char) : Bool := !isUnmarked c && !isExtending c

def escape (c : Char) : List Char :=
  match c with
  | '"' => ['\\', '"']
  | '\\' => ['\\', '\\']
  | '\n' => ['\\', 'n']
  | '\r' => ['\\', 'r']
  | '\t' => ['\\', 't']
  | '\x00' => ['\\', '0']
  | c => if standsAlone c then [c] else ['\\', 'u', '\x7b'] ++ Nat.toDigits 16 c.toNat ++ ['\x7d']

def quote (text : String) : String :=
  String.ofList ('"' :: (text.toList.flatMap escape ++ ['"']))

end Literal
end Workflow
