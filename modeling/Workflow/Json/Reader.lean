import Workflow.Json.Number
import Workflow.Json.Quoted

/-! # Workflow.Json.Reader

Reads a JSON document from its text. Blanks are the space, the tab, the line feed and the carriage
return; nothing but blanks may follow the document; objects and lists stand in each other at most
127 deep.
-/

namespace Workflow
namespace Json
namespace Reader

def maxDepth : Nat := 127

def isSpace (c : Char) : Bool := c == ' ' || c == '\t' || c == '\n' || c == '\r'

def skipSpace (input : List Char) : List Char := input.dropWhile isSpace

/-- Items with commas between them, up to `close`. -/
def itemsFrom {α : Type} (item : List Char → Option (α × List Char)) (close : Char) :
    Nat → List Char → Option (List α × List Char)
  | 0, _ => none
  | fuel + 1, input => do
    let (first, rest) ← item input
    match skipSpace rest with
    | c :: rest =>
      if c = close then return ([first], rest)
      else if c = ',' then
        let (items, rest) ← itemsFrom item close fuel rest
        return (first :: items, rest)
      else none
    | [] => none

/-- What follows an opening bracket: `close` at once, or items up to it. -/
def items {α : Type} (item : List Char → Option (α × List Char)) (close : Char)
    (input : List Char) : Option (List α × List Char) :=
  match skipSpace input with
  | c :: rest =>
    if c = close then some ([], rest) else itemsFrom item close (input.length + 1) (c :: rest)
  | [] => none

/-- A key, a colon and a value. -/
def field {α : Type} (value : List Char → Option (α × List Char)) (input : List Char) :
    Option ((String × α) × List Char) :=
  match skipSpace input with
  | '"' :: rest => do
    let (key, rest) ← Quoted.read rest
    match skipSpace rest with
    | ':' :: rest =>
      let (value, rest) ← value rest
      return ((key, value), rest)
    | _ => none
  | _ => none

/-- A value that is no object and no list, from its first character on. -/
def scalar : List Char → Option (Json × List Char)
  | 'n' :: 'u' :: 'l' :: 'l' :: rest => some (.null, rest)
  | 't' :: 'r' :: 'u' :: 'e' :: rest => some (.bool true, rest)
  | 'f' :: 'a' :: 'l' :: 's' :: 'e' :: rest => some (.bool false, rest)
  | '"' :: rest => do
    let (text, rest) ← Quoted.read rest
    return (.string text, rest)
  | input => do
    let (spelling, rest) ← Spelling.read input
    let number ← spelling.number?
    return (number, rest)

/-- A value in which objects and lists stand at most `depth` deep. -/
def value : Nat → List Char → Option (Json × List Char)
  | 0, input =>
    match skipSpace input with
    | '[' :: _ => none
    | '\x7b' :: _ => none
    | input => scalar input
  | depth + 1, input =>
    match skipSpace input with
    | '[' :: rest => do
      let (values, rest) ← items (value depth) ']' rest
      return (.array values, rest)
    | '\x7b' :: rest => do
      let (fields, rest) ← items (field (value depth)) '\x7d' rest
      return (.object fields, rest)
    | input => scalar input

end Reader

def ofChars? (input : List Char) : Option Json := do
  let (json, rest) ← Reader.value Reader.maxDepth input
  if (Reader.skipSpace rest).isEmpty then return json else none

/-- The document as it is written. -/
def ofText? (text : String) : Option Json := ofChars? text.toList

/-- The document with its fields in order, each key once. -/
def document? (text : String) : Option Json := (ofText? text).map canonical

end Json
end Workflow
