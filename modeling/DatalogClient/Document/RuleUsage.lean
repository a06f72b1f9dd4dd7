import DatalogClient.Value.Shown
import DatalogClient.Value.Wire

/-!
# Rule usages

A rule usage invokes a rule by its name with arguments by position. On the wire it is an object
with the type `rule` and a list headed by the name.

## Main definitions

* `RuleUsage` — a name with arguments
* `RuleUsage.toJson`, `RuleUsage.decode` — both ways of the wire form
-/

namespace DatalogClient

/-- The use of a rule. -/
structure RuleUsage where
  name : String
  args : List Value

namespace RuleUsage

/-- Equality of rule usages. -/
def same (a b : RuleUsage) : Bool := a.name == b.name && a.args == b.args

/-- The type that marks a rule usage. -/
def tag : String := "rule"

/-- The wire form. -/
def toJson (r : RuleUsage) : Json :=
  .obj [("type", .str tag), ("value", .arr (.str r.name :: Value.listToJson r.args))]

/-- What has been read of the wire form. -/
structure Draft where
  tag : Option String := none
  items : Option (List Value) := none

/-- The record of the wire form: a type and a list. No other member may stand there. -/
def record : Json.Record Draft (String × List Value) where
  title := "struct RuleWire"
  strict := true
  fields :=
    [.of "type" true Json.text Draft.tag fun a d => { d with tag := a },
     .of "value" true (Json.each Value.decode) Draft.items fun a d => { d with items := a }]
  blank := {}
  build d := do
    let tag ← Json.need "type" d.tag
    let items ← Json.need "value" d.items
    return (tag, items)

/-- The rule usage of a type and a list, or why there is none. -/
def ofParts (found : String) (items : List Value) : Except String RuleUsage :=
  if found ≠ tag then .error ("expected type '" ++ tag ++ "', found '" ++ found ++ "'")
  else
    match items with
    | .text name :: args => .ok ⟨name, args⟩
    | other :: _ => .error ("rule name must be a string, found " ++ other.shown)
    | [] => .error "rule usage is missing its name"

/-- The decoder of rule usages. -/
def decode : Decoder RuleUsage := fun t =>
  match record.decode t with
  | .error p => .error p
  | .ok (found, items) => (ofParts found items).mapError fun reason => ⟨.refused reason, none⟩

end RuleUsage

end DatalogClient
