import DatalogClient.Document.Basic
import DatalogClient.Json.Printer
import DatalogClient.Json.Reader
import DatalogClient.Pull.Wire

/-!
# Query documents on the wire

Members that are absent are not written. The compact text keeps the entries of map specs as they
are, repeated names included; the JSON value of a document has each name once.

## Main definitions

* `Document.wire`, `Document.text`, `Document.toJson` — the wire form, its text, its value
* `Document.ofJson`, `Document.ofText` — the document of a value and of a text
* `Document.Malformed` — why there is none
-/

namespace DatalogClient

namespace FindTerm

/-- The wire form of a term. -/
def toJson : FindTerm → Json
  | var text => .str text
  | pull p => p.toJson
  | single => .str singleMark
  | many => .str manyMark

/-- The term of a wire form. -/
def ofJson? : Json → Option FindTerm
  | .str s => some (ofText s)
  | j => ((Pull.decode (.ofJson j)).toOption).map .pull

/-- The decoder of terms. -/
def decode : Decoder FindTerm := Json.inSomeForm "FindTermWire" ofJson?

end FindTerm

namespace Document

/-- A member that is written only if it is there. -/
def memberIf {α : Type} (name : String) (write : α → Json) :
    Option (List α) → List (String × Json)
  | some items => [(name, .arr (items.map write))]
  | none => []

/-- The wire form. -/
def wire (d : Document) : Json :=
  .obj (("find", .arr (d.find.map FindTerm.toJson)) ::
    (memberIf "keys" .str d.keys ++ memberIf "in" Binding.toJson d.inputs ++
      memberIf "where" Clause.toJson d.clauses ++ memberIf "args" Value.toJson d.args))

/-- The compact text of the wire form. -/
def text (d : Document) : String := d.wire.compact

/-- The wire form with each name once. -/
def toJson (d : Document) : Json := d.wire.collapse

/-- What has been read of a document. -/
structure Draft where
  find : Option (List FindTerm) := none
  keys : Option (Option (List String)) := none
  inputs : Option (Option (List Binding)) := none
  clauses : Option (Option (List Clause)) := none
  args : Option (Option (List Value)) := none

/-- The record of a document. -/
def record : Json.Record Draft Document where
  title := "struct QueryDocument"
  strict := false
  fields :=
    [.of "find" true (Json.each FindTerm.decode) Draft.find fun a d => { d with find := a },
     .of "keys" false (Json.optional (Json.each Json.text)) Draft.keys
       fun a d => { d with keys := some a },
     .of "in" false (Json.optional (Json.each Binding.decode)) Draft.inputs
       fun a d => { d with inputs := some a },
     .of "where" false (Json.optional (Json.each Clause.decode)) Draft.clauses
       fun a d => { d with clauses := some a },
     .of "args" false (Json.optional (Json.each Value.decode)) Draft.args
       fun a d => { d with args := some a }]
  blank := {}
  build d := do
    let find ← Json.need "find" d.find
    return { find, keys := d.keys.join, inputs := d.inputs.join, clauses := d.clauses.join,
             args := d.args.join }

/-- The decoder of documents. -/
def decode : Decoder Document := record.decode

/-- A document could not be read. -/
structure Malformed where
  problem : Problem

/-- The text of the error. -/
def Malformed.message (e : Malformed) : String :=
  "malformed query document: " ++ e.problem.message

/-- The document of a JSON value. -/
def ofJson (j : Json) : Except Malformed Document := (decode (.ofJson j)).mapError .mk

/-- The document of a text. -/
def ofText (text : String) : Except Malformed Document :=
  (Json.decodeText decode text).mapError .mk

end Document

end DatalogClient
