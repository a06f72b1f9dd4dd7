import DatalogClient.Calendar.Reader
import DatalogClient.Json.Decode
import DatalogClient.Schema.Basic

/-!
# Schemas on the wire

Flags are always written; they may be absent when read. Other members that are absent are not
written.

## Main definitions

* `SchemaEntry.toJson`, `EntityShape.toJson`, `Envelope.toJson` — the wire forms
* `SchemaEntry.decode`, `EntityShape.decode`, `Envelope.decode` — the decoders
-/

namespace DatalogClient

open Json (RecordField need optional)

/-- A moment as text. -/
def Moment.decode : Decoder Moment
  | .scalar (.str s) _ stop => (Moment.ofText s).mapError fun flaw => ⟨.refused flaw.message, stop⟩
  | other => .error (other.wrongType "an RFC 3339 formatted date and time string")

/-- The decoder of a uniqueness. -/
def Uniqueness.decode : Decoder Uniqueness :=
  Json.choice ([.value, .identity].map fun u => .plain u.name u)

namespace SchemaEntry

/-- A member that is written only if it is there. -/
def memberIf {α : Type} (name : String) (write : α → Json) : Option α → List (String × Json)
  | some a => [(name, write a)]
  | none => []

/-- The wire form. -/
def toJson (e : SchemaEntry) : Json :=
  .obj ([("ident", .str e.ident), ("namespace", .str e.nameSpace)] ++
    memberIf "valueType" .str e.valueType ++ memberIf "cardinality" .str e.cardinality ++
    [("isIdent", .bool e.isIdent), ("isFunction", .bool e.isFunction),
     ("isAttribute", .bool e.isAttribute), ("isUnique", .bool e.isUnique),
     ("isComponent", .bool e.isComponent)] ++
    memberIf "unique" (fun u => .str u.name) e.unique ++ memberIf "doc" .str e.doc ++
    memberIf "function" .str e.function ++
    memberIf "updatedAt" (fun m => .str m.briefText) e.updatedAt)

/-- What has been read of an entry. -/
structure Draft where
  ident : Option String := none
  nameSpace : Option String := none
  valueType : Option (Option String) := none
  cardinality : Option (Option String) := none
  isIdent : Option Bool := none
  isFunction : Option Bool := none
  isAttribute : Option Bool := none
  isUnique : Option Bool := none
  isComponent : Option Bool := none
  unique : Option (Option Uniqueness) := none
  doc : Option (Option String) := none
  function : Option (Option String) := none
  updatedAt : Option (Option Moment) := none

/-- The fields of an entry, in order. -/
def fields : List (RecordField Draft) :=
  [.of "ident" true Json.text Draft.ident fun a d => { d with ident := some a },
   .of "namespace" true Json.text Draft.nameSpace fun a d => { d with nameSpace := some a },
   .of "valueType" false (optional Json.text) Draft.valueType
     fun a d => { d with valueType := some a },
   .of "cardinality" false (optional Json.text) Draft.cardinality
     fun a d => { d with cardinality := some a },
   .of "isIdent" false Json.flag Draft.isIdent fun a d => { d with isIdent := some a },
   .of "isFunction" false Json.flag Draft.isFunction fun a d => { d with isFunction := some a },
   .of "isAttribute" false Json.flag Draft.isAttribute fun a d => { d with isAttribute := some a },
   .of "isUnique" false Json.flag Draft.isUnique fun a d => { d with isUnique := some a },
   .of "isComponent" false Json.flag Draft.isComponent fun a d => { d with isComponent := some a },
   .of "unique" false (optional Uniqueness.decode) Draft.unique
     fun a d => { d with unique := some a },
   .of "doc" false (optional Json.text) Draft.doc fun a d => { d with doc := some a },
   .of "function" false (optional Json.text) Draft.function
     fun a d => { d with function := some a },
   .of "updatedAt" false (optional Moment.decode) Draft.updatedAt
     fun a d => { d with updatedAt := some a }]

/-- The record of an entry. -/
def record : Json.Record Draft SchemaEntry where
  title := "struct SchemaAttribute"
  strict := false
  fields := fields
  blank := {}
  build d := do
    let ident ← need "ident" d.ident
    let nameSpace ← need "namespace" d.nameSpace
    return { ident, nameSpace, valueType := d.valueType.join, cardinality := d.cardinality.join,
             isIdent := d.isIdent.getD false, isFunction := d.isFunction.getD false,
             isAttribute := d.isAttribute.getD false, isUnique := d.isUnique.getD false,
             isComponent := d.isComponent.getD false, unique := d.unique.join, doc := d.doc.join,
             function := d.function.join, updatedAt := d.updatedAt.join }

/-- The decoder of entries. -/
def decode : Decoder SchemaEntry := record.decode

end SchemaEntry

namespace EntityShape

/-- The wire form. -/
def toJson (e : EntityShape) : Json :=
  .obj [("uniqueAttribute", .str e.uniqueAttribute), ("schema", e.schema)]

/-- What has been read of a shape. -/
structure Draft where
  uniqueAttribute : Option String := none
  schema : Option Json := none

/-- The record of a shape. -/
def record : Json.Record Draft EntityShape where
  title := "struct EntityShape"
  strict := false
  fields :=
    [.of "uniqueAttribute" true Json.text Draft.uniqueAttribute
       fun a d => { d with uniqueAttribute := some a },
     .of "schema" true Json.anything Draft.schema fun a d => { d with schema := some a }]
  blank := {}
  build d := do
    let uniqueAttribute ← need "uniqueAttribute" d.uniqueAttribute
    let schema ← need "schema" d.schema
    return { uniqueAttribute, schema }

/-- The decoder of shapes. -/
def decode : Decoder EntityShape := record.decode

end EntityShape

namespace Envelope

variable {α : Type}

/-- The wire form of an envelope with a list. -/
def toJson (write : α → Json) (e : Envelope (List α)) : Json :=
  .obj [("data", .arr (e.data.map write))]

/-- The record of an envelope. -/
def record (decode : Decoder α) : Json.Record (Option α) (Envelope α) where
  title := "struct Envelope"
  strict := false
  fields := [.of "data" true decode id fun a _ => some a]
  blank := none
  build d := (need "data" d).map .mk

/-- The decoder of envelopes with a list. -/
def decode (item : Decoder α) : Decoder (Envelope (List α)) := (record (Json.each item)).decode

end Envelope

end DatalogClient
