import DatalogClient.Text.Hex
import DatalogClient.Text.Unprintable

/-!
# Quoted text in messages

Messages show a text between double quotes. Quotes, backslashes and control characters are
escaped, and every character that would not be seen is written by its number.

## Main definitions

* `quoted` — the text as messages show it
-/

namespace DatalogClient.Text

/-- One character inside quotes. -/
def quotedChar (c : Char) : List Char :=
  if c = '\x00' then ['\\', '0']
  else if c = '\t' then ['\\', 't']
  else if c = '\n' then ['\\', 'n']
  else if c = '\r' then ['\\', 'r']
  else if c = '"' then ['\\', '"']
  else if c = '\\' then ['\\', '\\']
  else if isUnprintable c then ['\\', 'u', '\x7b'] ++ hexNumber c.toNat ++ ['\x7d']
  else [c]

/-- A text as messages show it. -/
def quoted (s : String) : String :=
  String.ofList ('"' :: s.toList.flatMap quotedChar ++ ['"'])

end DatalogClient.Text
