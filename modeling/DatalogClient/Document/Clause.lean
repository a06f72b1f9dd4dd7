import DatalogClient.Document.Binding
import DatalogClient.Document.RuleUsage

/-!
# Where clauses

A clause constrains a query by a data pattern, by a call that must hold, by a call whose result is
bound, or by a rule. Only rules are marked on the wire; the three kinds of lists are told apart by
what they hold.

## Main definitions

* `Call`, `Clause` — calls and clauses
* `Clause.ofItems` — the clause of a list of literals
* `Clause.toJson`, `Clause.decode` — both ways of the wire form
-/

namespace DatalogClient

/-- A function with its arguments. -/
structure Call where
  name : String
  args : List Value

namespace Call

/-- Equality of calls. -/
def same (a b : Call) : Bool := a.name == b.name && a.args == b.args

/-- The wire form: a list headed by the name. -/
def toJson (c : Call) : Json := .arr (.str c.name :: Value.listToJson c.args)

/-- The call of a list that is headed by a text. -/
def ofItems? : List Value → Option Call
  | .text name :: args => some ⟨name, args⟩
  | _ => none

end Call

/-- One constraint of a query. -/
inductive Clause where
  /-- Entity, attribute, value, transaction and operation, as many as are given. -/
  | pattern (items : List Value)
  /-- A call that must hold. -/
  | predicate (call : Call)
  /-- A call whose result is bound. -/
  | function (call : Call) (binding : Binding)
  | rule (usage : RuleUsage)

namespace Clause

/-- Equality of clauses. -/
def same : Clause → Clause → Bool
  | pattern a, pattern b => a == b
  | predicate a, predicate b => a.same b
  | function a x, function b y => a.same b && x == y
  | rule a, rule b => a.same b
  | _, _ => false

/-- The wire form. -/
def toJson : Clause → Json
  | pattern items => .arr (Value.listToJson items)
  | predicate call => .arr [call.toJson]
  | function call binding => .arr [call.toJson, binding.toJson]
  | rule usage => usage.toJson

/-- The clause of a list. A list headed by a list that names a function is a call; a call binds
its result if just a binding follows. -/
def ofItems (items : List Value) : Clause :=
  match items with
  | [.list inner] =>
    match Call.ofItems? inner with
    | some call => .predicate call
    | none => .pattern items
  | [.list inner, second] =>
    match Call.ofItems? inner, Binding.ofValue? second with
    | some call, some binding => .function call binding
    | _, _ => .pattern items
  | _ => .pattern items

/-- The clause of a wire form. -/
def ofJson? (j : Json) : Option Clause :=
  match RuleUsage.decode (.ofJson j) with
  | .ok usage => some (.rule usage)
  | .error _ =>
    match j with
    | .arr items => (Value.listOfJson? items).map ofItems
    | _ => none

/-- The decoder of clauses. Whatever is wrong with a clause, faults of the text included, is told
in one way. -/
def decode : Decoder Clause := fun t =>
  match t.json.toOption.bind ofJson? with
  | some clause => .ok clause
  | none => .error ⟨.refused "where clause must be a list or a rule usage", none⟩

end Clause

end DatalogClient
