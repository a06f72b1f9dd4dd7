import DatalogClient.Calendar.Moment
import DatalogClient.Json.Basic

/-!
# Schemas

A server publishes what is installed in its database: attributes, idents and functions, and the
shapes of entities that share a unique attribute.

## Main definitions

* `SchemaEntry` — one installed thing
* `EntityShape` — the attributes of a kind of entities
* `Envelope` — what the server wraps its answers in
-/

namespace DatalogClient

/-- How the values of an attribute are unique. -/
inductive Uniqueness where
  | value
  | identity
deriving DecidableEq

/-- The name of a uniqueness. -/
def Uniqueness.name : Uniqueness → String
  | value => "unique/value"
  | identity => "unique/identity"

/-- One installed attribute, ident or function. It may be more than one of them. -/
structure SchemaEntry where
  ident : String
  nameSpace : String
  valueType : Option String := none
  cardinality : Option String := none
  isIdent : Bool := false
  isFunction : Bool := false
  isAttribute : Bool := false
  isUnique : Bool := false
  isComponent : Bool := false
  unique : Option Uniqueness := none
  doc : Option String := none
  function : Option String := none
  updatedAt : Option Moment := none

/-- The attributes seen on entities that share a unique one. -/
structure EntityShape where
  uniqueAttribute : String
  schema : Json

/-- An answer with its data. -/
structure Envelope (α : Type) where
  data : α

end DatalogClient
