import DatalogClient.Document.Wire

/-!
# Submissions

A document is submitted to a server, which answers with a JSON body. A body that holds a true
`error` reports a failure.

## Main definitions

* `SubmitError` — why a submission failed
* `checkResponse` — a body, unless it reports a failure
-/

namespace DatalogClient

/-- Why a submission failed. -/
inductive SubmitError where
  /-- There was no answer. -/
  | transport (message : String)
  /-- The answer has a status of failure, and perhaps a body. -/
  | status (code : Nat) (body : Option Json)
  /-- The body reports a failure. -/
  | server (body : Json)
  /-- The answer could not be read. -/
  | decode (message : String)

/-- The server's own words: the text of `error` or of the `message` in it. Where there are none the
whole is written as JSON. -/
def serverMessage (body : Json) : String :=
  let error := (body.member? "error").getD body
  match error.text?.or ((error.member? "message").bind Json.text?) with
  | some text => text
  | none => error.compact

namespace SubmitError

/-- The text of the error. -/
def display : SubmitError → String
  | transport message => "transport error: " ++ message
  | status code _ => "server responded with status " ++ toString code
  | server body => "server reported an error: " ++ serverMessage body
  | decode message => "response could not be decoded: " ++ message

/-- The text of the error, in the server's own words if it has some. -/
def message : SubmitError → String
  | server body => serverMessage body
  | e => e.display

/-- The body that came with the failure. -/
def body? : SubmitError → Option Json
  | server body => some body
  | status _ body => body
  | _ => none

end SubmitError

/-- A value that counts as true: neither null nor false, neither zero nor the empty text. -/
def isTruthy : Json → Bool
  | .null => false
  | .bool b => b
  | .str s => s != ""
  | .num (.int n) => n != 0
  | .num (.float x) => x != 0
  | .arr _ => true
  | .obj _ => true

/-- A body, unless it reports a failure. -/
def checkResponse (body : Json) : Except SubmitError Json :=
  match body.member? "error" with
  | some error => if isTruthy error then .error (.server body) else .ok body
  | none => .ok body

end DatalogClient
