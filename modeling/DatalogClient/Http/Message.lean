import DatalogClient.Http.Header

/-!
# Requests and what becomes of them

A request goes to an address and has one outcome: an answer, or one of four ways in which there is
none.

## Main definitions

* `Request`, `Request.line` — what is sent
* `Outcome`, `Outcome.answer` — what becomes of it
-/

namespace DatalogClient.Http

/-- What is wanted of an address. -/
inductive Method where
  | get
  | post
deriving DecidableEq

/-- The word for a method. -/
def Method.name : Method → String
  | get => "GET"
  | post => "POST"

/-- How long to wait, in milliseconds. -/
structure Patience where
  connectMs : Nat
  answerMs : Nat
deriving DecidableEq

/-- What is sent to an address. Names of headers are in lower case. -/
structure Request where
  method : Method
  url : String
  headers : Headers
  body : String
  patience : Patience
deriving DecidableEq

/-- What follows the two slashes of an address. -/
def afterScheme : List Char → List Char
  | ':' :: '/' :: '/' :: rest => rest
  | _ :: rest => afterScheme rest
  | [] => []

/-- The part of an address that its host is asked for: all from the first slash or question mark
after the host, and a slash before it where it has none. -/
def target (url : String) : String :=
  match (afterScheme url.toList).dropWhile fun c => c != '/' && c != '?' with
  | '/' :: rest => String.ofList ('/' :: rest)
  | rest => String.ofList ('/' :: rest)

/-- The first line of a request. -/
def Request.line (r : Request) : String := r.method.name ++ " " ++ target r.url ++ " HTTP/1.1"

/-- What became of a request. -/
inductive Outcome where
  /-- Nobody was there. -/
  | refused
  /-- The connection was closed before an answer came. -/
  | closed
  /-- No answer came in time. -/
  | timedOut
  /-- The answer ended before its body did. -/
  | truncated
  | answered (status : Nat) (body : String)
deriving DecidableEq

/-- The request has reached somebody. -/
def Outcome.isSent : Outcome → Bool
  | refused => false
  | _ => true

/-- Status and body of the answer, or a description of what went wrong. -/
def Outcome.answer (url : String) : Outcome → Except String (Nat × String)
  | refused => .error ("failed to connect: error sending request for url (" ++ url ++ ")")
  | closed => .error ("request failed: error sending request for url (" ++ url ++ ")")
  | timedOut => .error ("request timed out: error sending request for url (" ++ url ++ ")")
  | truncated => .error "failed to read response body: error decoding response body"
  | answered status body => .ok (status, body)

end DatalogClient.Http
