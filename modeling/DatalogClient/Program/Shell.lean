import DatalogClient.Program.Trouble
import DatalogClient.Text.Blank

/-!
# The shell

The shell takes lines: a document is submitted, and a word after a colon is a command. What goes
wrong with one line is told and does not keep the next from being taken; only a line that is no text
ends the shell in trouble.

## Main definitions

* `ShellLine`, `ShellLine.ofText` — what a line asks for
* `Shell.lines` — the lines of an input
* `Shell.session` — what is done with the lines
-/

namespace DatalogClient

/-- What a line of the shell asks for. -/
inductive ShellLine where
  | blank
  | help
  | quit
  | validate (json : String)
  | translate (json : String)
  | submit (json : String)
  | unknown (name : String)
deriving DecidableEq

/-- What a line asks for. A command is the word after a colon, and the rest is what it is about. -/
def ShellLine.ofText (line : String) : ShellLine :=
  match (Text.trim line).toList with
  | [] => .blank
  | ':' :: rest =>
    let (name, about) := Text.splitAtBlank (String.ofList rest)
    let about := Text.trim about
    match name with
    | "q" => .quit
    | "quit" => .quit
    | "h" => .help
    | "help" => .help
    | "v" => .validate about
    | "validate" => .validate about
    | "t" => .translate about
    | "translate" => .translate about
    | _ => .unknown name
  | document => .submit (String.ofList document)

namespace Shell

/-- The help of the shell. -/
def help : String :=
  "Enter a query document as one line of JSON to validate and submit it.\n" ++
  "\n" ++
  "  :validate <json>   check a document without submitting\n" ++
  "  :translate <json>  show the server's translation of a document\n" ++
  "  :help              show this text\n" ++
  "  :quit              leave (also :q or Ctrl-D)"

/-- The lines of an input, without their ends. -/
def lines : List UInt8 → List (List UInt8)
  | [] => []
  | byte :: rest =>
    if byte = 10 then [] :: lines rest
    else
      match lines rest with
      | [] => [[byte]]
      | line :: more => (byte :: line) :: more

/-- Tell what went wrong with a line. -/
def complain (r : Report) : Dialogue Unit := .line .errors r.message

/-- Check a document and have an exchange about it. -/
def ask (exchange : Document → Exchange Json) (json : String) : Dialogue Unit :=
  match Document.checkText json with
  | .error e => complain (.ofFailure (.ofValidate e))
  | .ok document => do
    match ← Errand.exchange (exchange document) with
    | .ok body => .line .output body.indented
    | .error r => complain r

/-- Do what a line asks for, and say whether to go on. -/
def obey (client : Client) : ShellLine → Dialogue Bool
  | .blank => .done true
  | .help => do .line .output help; return true
  | .quit => .done false
  | .unknown name => do
    .line .errors ("unknown command ':" ++ name ++ "' (try :help)"); return true
  | .validate json => do
    match Document.checkText json with
    | .ok _ => .line .output "ok"
    | .error e => complain (.ofFailure (.ofValidate e))
    return true
  | .translate json => do ask client.translate json; return true
  | .submit json => do ask client.submit json; return true

/-- Take lines until one asks to quit. -/
def session (client : Client) : List (List UInt8) → Errand Unit
  | [] => return
  | line :: rest =>
    match String.fromUTF8? ⟨line.toArray⟩ with
    | none => throw { message := "readline error: " ++ Source.notText }
    | some text => do
      if ← (obey client (.ofText text) : Dialogue Bool) then session client rest

end Shell

end DatalogClient
