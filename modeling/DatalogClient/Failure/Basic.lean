import DatalogClient.Document.Validation
import DatalogClient.Submission

/-!
# Failures

Every failure of the core has a class and an origin. Issues of a document and the body of a server
stay with it.

## Main definitions

* `Failure` — a failure with class, origin and detail
* `Failure.ofMalformed`, `Failure.ofValidate`, `Failure.ofSubmit` — where failures come from
-/

namespace DatalogClient

/-- What kind of failure. -/
inductive Failure.Class where
  | decode
  | invalid
  | transport
  | server
deriving DecidableEq

/-- Where a failure arose. -/
inductive Failure.Origin where
  | document
  | validate
  | submit
deriving DecidableEq

/-- What stays with a failure. -/
inductive Failure.Detail where
  | issues (issues : List Issue)
  | body (body : Json)

/-- A failure. -/
structure Failure where
  kind : Failure.Class
  origin : Failure.Origin
  message : String
  detail : Option Failure.Detail := none

namespace Failure

/-- The word for a class. -/
def Class.name : Class → String
  | decode => "decode"
  | invalid => "invalid"
  | transport => "transport"
  | server => "server"

/-- The word for an origin. -/
def Origin.name : Origin → String
  | document => "document"
  | validate => "validate"
  | submit => "submit"

/-- The message with class and origin before it. -/
def display (f : Failure) : String := f.origin.name ++ ":" ++ f.kind.name ++ ": " ++ f.message

/-- The issues of the failure. -/
def issues? (f : Failure) : Option (List Issue) :=
  match f.detail with
  | some (.issues issues) => some issues
  | _ => none

/-- The body that the server sent. -/
def body? (f : Failure) : Option Json :=
  match f.detail with
  | some (.body body) => some body
  | _ => none

/-- A document that could not be read. -/
def ofMalformed (e : Document.Malformed) : Failure :=
  { kind := .decode, origin := .document, message := e.message }

/-- A document that could not be read or has issues. -/
def ofValidate : ValidateError → Failure
  | .malformed e => ofMalformed e
  | .invalid e =>
    { kind := .invalid, origin := .validate
      message := "validation failed: " ++ toString e.issues.length ++ " issue(s)"
      detail := some (.issues e.issues) }

/-- A submission that failed. -/
def ofSubmit (e : SubmitError) : Failure :=
  let failure (kind : Class) (detail : Option Detail) : Failure :=
    { kind, origin := .submit, message := e.message, detail }
  match e with
  | .transport _ => failure .transport none
  | .status _ body => failure .server (body.map .body)
  | .server body => failure .server (some (.body body))
  | .decode _ => failure .decode none

end Failure

end DatalogClient
