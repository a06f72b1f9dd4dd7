import DatalogClient.Decimal.Notation
import DatalogClient.Text.Quoted
import DatalogClient.Value.Basic

/-!
# Literals in messages

Messages show a literal with the name of its sort, texts between quotes.

## Main definitions

* `Value.shown` — a literal as messages show it
-/

namespace DatalogClient

/-- The name of a kind in messages. -/
def Kind.shownName : Kind → String
  | uuid => "Uuid"
  | keyword => "Keyword"
  | symbol => "Symbol"
  | bigint => "Bigint"
  | bigdec => "Bigdec"
  | instant => "Instant"
  | uri => "Uri"
  | bytes => "Bytes"

/-- A name and what it is applied to. -/
def applied (name content : String) : String := name ++ "(" ++ content ++ ")"

mutual

/-- A literal as messages show it. -/
def Value.shown : Value → String
  | .bool b => applied "Bool" (if b then "true" else "false")
  | .int n => applied "Int" (toString n.toInt)
  | .float x => applied "Float" (Decimal.message.double x)
  | .text s => applied "Text" (Text.quoted s)
  | .typed t => applied "Complex" (applied t.kind.shownName (Text.quoted t.text))
  | .list items => applied "List" ("[" ++ Value.listShown items ++ "]")

/-- Several literals, separated by commas. -/
def Value.listShown : List Value → String
  | [] => ""
  | [item] => item.shown
  | item :: rest => item.shown ++ ", " ++ Value.listShown rest

end

end DatalogClient
