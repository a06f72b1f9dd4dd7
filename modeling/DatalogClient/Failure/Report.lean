import DatalogClient.Failure.Basic
import DatalogClient.Settings.Basic

/-!
# Reports to callers

Callers are told of any failure by a report: a kind and an origin, both from a fixed list, and a
message. Reports have a wire form of their own.

## Main definitions

* `Report` — kind, origin and message
* `Report.ofFailure`, `Report.ofConfig` — the reports of failures and of bad settings
* `Report.toJson`, `Report.decode` — both ways of the wire form
-/

namespace DatalogClient

namespace Report

/-- What is wrong with a query. -/
inductive QueryKind where
  | malformed
  | invalid
deriving DecidableEq

/-- What went wrong with the server. -/
inductive ApiKind where
  | unreachable
  | rejected
deriving DecidableEq

/-- The kind of a report. -/
inductive Kind where
  | query (kind : QueryKind)
  | api (kind : ApiKind)
  | config
deriving DecidableEq

/-- The origin of a report. -/
inductive Origin where
  | client
  | config
  | document
  | submit
  | validate
deriving DecidableEq

end Report

/-- What callers are told of a failure. -/
structure Report where
  kind : Report.Kind
  origin : Report.Origin
  message : String

namespace Report

/-- The kind of a class of failures. -/
def Kind.ofClass : Failure.Class → Kind
  | .decode => .query .malformed
  | .invalid => .query .invalid
  | .transport => .api .unreachable
  | .server => .api .rejected

/-- The origin of a failure. -/
def Origin.ofFailure : Failure.Origin → Origin
  | .document => .document
  | .submit => .submit
  | .validate => .validate

/-- The report of a failure. Issues are listed in full, a line each. -/
def ofFailure (f : Failure) : Report where
  kind := .ofClass f.kind
  origin := .ofFailure f.origin
  message := match f.issues? with
    | some issues => f.message ++ "\n" ++ Issue.display issues
    | none => f.message

/-- The report of settings that cannot be used. -/
def ofConfig (e : ConfigError) : Report := ⟨.config, .config, e.message⟩

/-! ### Wire form -/

/-- The name of a query kind. -/
def QueryKind.name : QueryKind → String
  | malformed => "Malformed"
  | invalid => "Invalid"

/-- The name of an API kind. -/
def ApiKind.name : ApiKind → String
  | unreachable => "Unreachable"
  | rejected => "Rejected"

/-- The wire form of a kind. -/
def Kind.toJson : Kind → Json
  | query kind => .obj [("Query", .str kind.name)]
  | api kind => .obj [("Api", .str kind.name)]
  | config => .str "Config"

/-- The name of an origin. -/
def Origin.name : Origin → String
  | client => "Client"
  | config => "Config"
  | document => "Document"
  | submit => "Submit"
  | validate => "Validate"

/-- The wire form of a report. -/
def toJson (r : Report) : Json :=
  .obj [("kind", r.kind.toJson), ("origin", .str r.origin.name), ("message", .str r.message)]

/-- The choice among names that stand alone. -/
def plainChoices {α : Type} (name : α → String) (all : List α) : List (Json.Choice α) :=
  all.map fun a => .plain (name a) a

/-- The decoder of kinds. -/
def Kind.decode : Decoder Kind :=
  Json.choice
    [.carrying "Query" fun t =>
       (Json.choice (plainChoices QueryKind.name [.malformed, .invalid]) t).map .query,
     .carrying "Api" fun t =>
       (Json.choice (plainChoices ApiKind.name [.unreachable, .rejected]) t).map .api,
     .plain "Config" .config]

/-- The decoder of origins. -/
def Origin.decode : Decoder Origin :=
  Json.choice (plainChoices Origin.name [.client, .config, .document, .submit, .validate])

/-- What has been read of a report. -/
structure Draft where
  kind : Option Kind := none
  origin : Option Origin := none
  message : Option String := none

/-- The record of a report. -/
def record : Json.Record Draft Report where
  title := "struct Error"
  strict := false
  fields :=
    [.of "kind" true Kind.decode Draft.kind fun a d => { d with kind := some a },
     .of "origin" true Origin.decode Draft.origin fun a d => { d with origin := some a },
     .of "message" true Json.text Draft.message fun a d => { d with message := some a }]
  blank := {}
  build d := do
    let kind ← Json.need "kind" d.kind
    let origin ← Json.need "origin" d.origin
    let message ← Json.need "message" d.message
    return { kind, origin, message }

/-- The decoder of reports. -/
def decode : Decoder Report := record.decode

end Report

end DatalogClient
