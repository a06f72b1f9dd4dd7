/-!
# Literals of queries

A literal is a truth value, a number, a text, a text of some other kind (a date, say, in the form
that the server reads), or a list of literals.

## Main definitions

* `Kind`, `TypedText` — texts that stand for values of another kind
* `Value` — literals
* `Value.isLogicVar` — the literal names a variable
-/

namespace DatalogClient

/-- What a text may stand for other than itself. -/
inductive Kind where
  | uuid
  | keyword
  | symbol
  | bigint
  | bigdec
  | instant
  | uri
  | bytes
deriving DecidableEq

namespace Kind

/-- Every kind, in the order of their numbers. -/
def all : List Kind := [uuid, keyword, symbol, bigint, bigdec, instant, uri, bytes]

/-- The name of a kind on the wire. -/
def name : Kind → String
  | uuid => "uuid"
  | keyword => "keyword"
  | symbol => "symbol"
  | bigint => "bigint"
  | bigdec => "bigdec"
  | instant => "instant"
  | uri => "uri"
  | bytes => "bytes"

/-- The kind of a name. -/
def ofName? (name : String) : Option Kind := all.find? fun kind => kind.name = name

/-- A name leads back to its kind. -/
@[simp] theorem ofName?_name (kind : Kind) : ofName? kind.name = some kind := by
  cases kind <;> decide

/-- Only the name of a kind leads to it. -/
theorem name_of_ofName? {name : String} {kind : Kind} (h : ofName? name = some kind) :
    kind.name = name := by
  simpa using List.find?_some h

end Kind

/-- A text that stands for a value of some kind. It is not looked into. -/
structure TypedText where
  kind : Kind
  text : String
deriving DecidableEq

/-- A literal of a query. -/
inductive Value where
  | bool (value : Bool)
  | int (value : Int64)
  | float (value : Float)
  | text (value : String)
  | typed (value : TypedText)
  | list (items : List Value)

namespace Value

/-- The text of a plain text. -/
def text? : Value → Option String
  | text s => some s
  | _ => none

/-- A plain text that begins with a question mark. -/
def isLogicVar : Value → Bool
  | text s => s.toList.head? == some '?'
  | _ => false

mutual

/-- Equality of literals; numbers compare as numbers do, so one that is not a number differs from
itself. -/
def same : Value → Value → Bool
  | bool a, bool b => a == b
  | int a, int b => a == b
  | float a, float b => a == b
  | text a, text b => a == b
  | typed a, typed b => a == b
  | list a, list b => sameItems a b
  | _, _ => false

/-- Equality item by item. -/
def sameItems : List Value → List Value → Bool
  | [], [] => true
  | a :: as, b :: bs => same a b && sameItems as bs
  | _, _ => false

end

instance : BEq Value := ⟨same⟩

end Value

end DatalogClient
