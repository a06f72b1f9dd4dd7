import DatalogClient.Decimal.Notation
import DatalogClient.Json.Basic
import DatalogClient.Text.Hex

/-!
# JSON as text

The compact form has no white space. The indented form puts every item and member on a line of its
own, two spaces deeper than its container; containers without content stay on one line.

## Main definitions

* `Json.compact`, `Json.indented` — the two forms
-/

namespace DatalogClient.Json

/-- One character of a string. -/
def escapeChar (c : Char) : List Char :=
  if c = '"' then ['\\', '"']
  else if c = '\\' then ['\\', '\\']
  else if c = '\x08' then ['\\', 'b']
  else if c = '\t' then ['\\', 't']
  else if c = '\n' then ['\\', 'n']
  else if c = '\x0c' then ['\\', 'f']
  else if c = '\r' then ['\\', 'r']
  else if c.toNat < 0x20 then
    ['\\', 'u', '0', '0', Text.hexDigit (c.toNat / 16), Text.hexDigit (c.toNat % 16)]
  else [c]

/-- A string between quotes. -/
def stringChars (s : String) : List Char := '"' :: s.toList.flatMap escapeChar ++ ['"']

/-- A number; one that is not finite has no form of its own and is written as null. -/
def numberChars : Number → List Char
  | .int n => (toString n).toList
  | .float x => if x.isFinite then (Decimal.wire.double x).toList else ['n', 'u', 'l', 'l']

/-- The two words for truth values. -/
def boolChars (b : Bool) : List Char :=
  if b then ['t', 'r', 'u', 'e'] else ['f', 'a', 'l', 's', 'e']

/-! ### The compact form -/

mutual

/-- A value without white space. -/
def compactChars : Json → List Char
  | .null => ['n', 'u', 'l', 'l']
  | .bool b => boolChars b
  | .num n => numberChars n
  | .str s => stringChars s
  | .arr items => '[' :: compactItems items
  | .obj members => '\x7b' :: compactMembers members

/-- The rest of a list from its first item on. -/
def compactItems : List Json → List Char
  | [] => [']']
  | item :: rest => compactChars item ++ compactItemsAfter rest

/-- The rest of a list after an item. -/
def compactItemsAfter : List Json → List Char
  | [] => [']']
  | item :: rest => ',' :: (compactChars item ++ compactItemsAfter rest)

/-- The rest of an object from its first member on. -/
def compactMembers : List (String × Json) → List Char
  | [] => ['\x7d']
  | (name, value) :: rest =>
    stringChars name ++ ':' :: (compactChars value ++ compactMembersAfter rest)

/-- The rest of an object after a member. -/
def compactMembersAfter : List (String × Json) → List Char
  | [] => ['\x7d']
  | (name, value) :: rest =>
    ',' :: (stringChars name ++ ':' :: (compactChars value ++ compactMembersAfter rest))

end

/-- The compact text of a value. -/
def compact (j : Json) : String := String.ofList j.compactChars

/-! ### The indented form -/

/-- A line break and the indentation of a depth. -/
def newline (depth : Nat) : List Char := '\n' :: List.replicate (2 * depth) ' '

mutual

/-- A value that stands at the given depth. -/
def indentedChars (depth : Nat) : Json → List Char
  | .null => ['n', 'u', 'l', 'l']
  | .bool b => boolChars b
  | .num n => numberChars n
  | .str s => stringChars s
  | .arr [] => ['[', ']']
  | .arr (item :: rest) =>
    '[' :: (newline (depth + 1) ++ indentedChars (depth + 1) item ++ indentedItems depth rest)
  | .obj [] => ['\x7b', '\x7d']
  | .obj ((name, value) :: rest) =>
    '\x7b' :: (newline (depth + 1) ++ stringChars name ++
      ':' :: ' ' :: (indentedChars (depth + 1) value ++ indentedMembers depth rest))

/-- The rest of a list at the given depth, after an item. -/
def indentedItems (depth : Nat) : List Json → List Char
  | [] => newline depth ++ [']']
  | item :: rest =>
    ',' :: (newline (depth + 1) ++ indentedChars (depth + 1) item ++ indentedItems depth rest)

/-- The rest of an object at the given depth, after a member. -/
def indentedMembers (depth : Nat) : List (String × Json) → List Char
  | [] => newline depth ++ ['\x7d']
  | (name, value) :: rest =>
    ',' :: (newline (depth + 1) ++ stringChars name ++
      ':' :: ' ' :: (indentedChars (depth + 1) value ++ indentedMembers depth rest))

end

/-- The indented text of a value. -/
def indented (j : Json) : String := String.ofList (j.indentedChars 0)

end DatalogClient.Json
