/-! # Workflow.Json.Quoted

JSON strings. `write` escapes the quote, the backslash and the controls below U+0020; `read` takes
the characters up to the closing quote and undoes every escape of the format, where two escaped
surrogates make one character and a lone one is an error.
-/

namespace Workflow
namespace Json
namespace Quoted

def hexDigit (n : Nat) : Char := Nat.digitChar n

def escape (c : Char) : List Char :=
  match c with
  | '"' => ['\\', '"']
  | '\\' => ['\\', '\\']
  | '\x08' => ['\\', 'b']
  | '\x09' => ['\\', 't']
  | '\x0a' => ['\\', 'n']
  | '\x0c' => ['\\', 'f']
  | '\x0d' => ['\\', 'r']
  | c =>
    if c.toNat < 0x20 then
      ['\\', 'u', '0', '0', hexDigit (c.toNat / 16), hexDigit (c.toNat % 16)]
    else [c]

def write (text : String) : List Char := '"' :: (text.toList.flatMap escape ++ ['"'])

def hexValue? (c : Char) : Option Nat :=
  if '0' ≤ c ∧ c ≤ '9' then some (c.toNat - '0'.toNat)
  else if 'a' ≤ c ∧ c ≤ 'f' then some (c.toNat - 'a'.toNat + 10)
  else if 'A' ≤ c ∧ c ≤ 'F' then some (c.toNat - 'A'.toNat + 10)
  else none

/-- Four hexadecimal digits: one UTF-16 unit. -/
def unit? : List Char → Option (Nat × List Char)
  | a :: b :: c :: d :: rest => do
    let a ← hexValue? a
    let b ← hexValue? b
    let c ← hexValue? c
    let d ← hexValue? d
    return (((a * 16 + b) * 16 + c) * 16 + d, rest)
  | _ => none

/-- The character after `\u`. A unit from D800 to DBFF has to be followed by an escaped one from
DC00 to DFFF, which stands nowhere else. -/
def unicode? (text : List Char) : Option (Char × List Char) := do
  let (high, rest) ← unit? text
  if 0xdc00 ≤ high ∧ high ≤ 0xdfff then none
  else if 0xd800 ≤ high ∧ high ≤ 0xdbff then
    match rest with
    | '\\' :: 'u' :: rest => do
      let (low, rest) ← unit? rest
      if 0xdc00 ≤ low ∧ low ≤ 0xdfff then
        return (Char.ofNat (0x10000 + (high - 0xd800) * 0x400 + (low - 0xdc00)), rest)
      else none
    | _ => none
  else return (Char.ofNat high, rest)

/-- The character that an escape stands for, from what follows its backslash. -/
def escaped? : List Char → Option (Char × List Char)
  | '"' :: rest => some ('"', rest)
  | '\\' :: rest => some ('\\', rest)
  | '/' :: rest => some ('/', rest)
  | 'b' :: rest => some ('\x08', rest)
  | 'f' :: rest => some ('\x0c', rest)
  | 'n' :: rest => some ('\x0a', rest)
  | 'r' :: rest => some ('\x0d', rest)
  | 't' :: rest => some ('\x09', rest)
  | 'u' :: rest => unicode? rest
  | _ => none

/-- The text up to the closing quote and what follows it. Every step takes a character at least, so
fuel for the length of the input is enough. -/
def readChars : Nat → List Char → Option (List Char × List Char)
  | 0, _ => none
  | _ + 1, [] => none
  | _ + 1, '"' :: rest => some ([], rest)
  | fuel + 1, '\\' :: rest => do
    let (c, rest) ← escaped? rest
    let (text, rest) ← readChars fuel rest
    return (c :: text, rest)
  | fuel + 1, c :: rest =>
    if c.toNat < 0x20 then none
    else do
      let (text, rest) ← readChars fuel rest
      return (c :: text, rest)

/-- Reads what follows an opening quote. -/
def read (input : List Char) : Option (String × List Char) := do
  let (text, rest) ← readChars input.length input
  return (String.ofList text, rest)

end Quoted
end Json
end Workflow
