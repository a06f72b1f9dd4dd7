import DatalogClient.Http.Message
import DatalogClient.Text.Source

/-!
# Dialogues

A program talks with the world around it: it writes, reads sources and sends requests, and goes on
with what it gets. A dialogue holds all that the program might do, and a scene, which has an answer
to everything, settles what it does.

## Main definitions

* `Dialogue` — what a program might do
* `Scene`, `Dialogue.play` — what it does in a given world
-/

namespace DatalogClient

/-- Where a program writes. -/
inductive Channel where
  | output
  | errors
deriving DecidableEq

/-- Where a program reads. -/
inductive SourceName where
  | input
  | file (path : String)
deriving DecidableEq

/-- What a program might do before it ends with a result. -/
inductive Dialogue (α : Type) where
  | done (result : α)
  | write (channel : Channel) (text : String) (next : Dialogue α)
  | read (name : SourceName) (next : Source → Dialogue α)
  | send (request : Http.Request) (next : Http.Outcome → Dialogue α)

/-- The world around a program: a source under every name, and an outcome for every request. -/
structure Scene where
  source : SourceName → Source
  /-- What becomes of the requests, in order. -/
  script : List Http.Outcome := []

/-- What a program did in the world around it. -/
structure Transcript where
  output : String := ""
  errors : String := ""
  /-- The requests that reached somebody. -/
  requests : List Http.Request := []

namespace Scene

/-- What becomes of the next request, and the world after it. The last outcome of a script comes
over and over; with an empty script nobody is there. -/
def answer (s : Scene) : Http.Outcome × Scene :=
  match s.script with
  | [] => (.refused, s)
  | [outcome] => (outcome, s)
  | outcome :: script => (outcome, { s with script })

end Scene

namespace Transcript

/-- Begin with something written. -/
def writing (channel : Channel) (text : String) (t : Transcript) : Transcript :=
  match channel with
  | .output => { t with output := text ++ t.output }
  | .errors => { t with errors := text ++ t.errors }

/-- Begin with a request, if it reached somebody. -/
def sending (request : Http.Request) (outcome : Http.Outcome) (t : Transcript) : Transcript :=
  if outcome.isSent then { t with requests := request :: t.requests } else t

end Transcript

namespace Dialogue

variable {α β : Type}

/-- Go on after the end. -/
def bind (d : Dialogue α) (next : α → Dialogue β) : Dialogue β :=
  match d with
  | done result => next result
  | write channel text rest => write channel text (rest.bind next)
  | read name rest => read name fun source => (rest source).bind next
  | send request rest => send request fun outcome => (rest outcome).bind next

instance : Monad Dialogue where
  pure := done
  bind := bind

/-- Write a line. -/
def line (channel : Channel) (text : String) : Dialogue Unit :=
  write channel (text ++ "\n") (done ())

/-- What the program does in a world, what it ends with, and the world after it. -/
def play : Dialogue α → Scene → Transcript × α × Scene
  | done result, s => ({}, result, s)
  | write channel text next, s =>
    let (t, result, s) := next.play s
    (t.writing channel text, result, s)
  | read name next, s => (next (s.source name)).play s
  | send request next, s =>
    let (t, result, s') := (next s.answer.1).play s.answer.2
    (t.sending request s.answer.1, result, s')

end Dialogue

end DatalogClient
