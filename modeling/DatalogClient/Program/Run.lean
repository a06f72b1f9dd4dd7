import DatalogClient.Program.Arguments
import DatalogClient.Program.Listing
import DatalogClient.Program.Shell
import DatalogClient.Settings.File

/-!
# Running commands

A command line is read, settings are loaded, and the command is carried out. A command that is in
trouble tells of it and fails.

## Main definitions

* `Invocation.settings` — the settings of an invocation
* `Command.errand` — what a command does
* `program` — what a command line does, and the status it ends with
-/

namespace DatalogClient

open Errand

/-- The settings of an invocation: those of the file, and then the address that is given. -/
def Invocation.settings (i : Invocation) : Errand Settings := do
  let file ← readSource (.file i.config)
  let settings ← ofExcept (fun e => (Trouble.ofConfig e).during ("loading " ++ i.config))
    (Settings.load i.config file)
  match i.apiUrl with
  | none => return settings
  | some url =>
    let settings := settings.withApiUrl url
    ofExcept .ofConfig settings.validate
    return settings

namespace Command

/-- Where a document is read. -/
def sourceName (file : String) : SourceName := if file = "-" then .input else .file file

/-- What is being read there. -/
def describe : SourceName → String
  | .input => "reading stdin"
  | .file path => "reading " ++ path

/-- The text of a document. -/
def documentText (file : String) : Errand String := do
  let source ← readSource (sourceName file)
  ofExcept (fun reason => ⟨describe (sourceName file), [reason]⟩) source.text

/-- A document that has been checked. -/
def checkedDocument (file : String) : Errand Document := do
  let text ← documentText file
  ofExcept (fun e => .ofReport (.ofFailure (.ofValidate e))) (Document.checkText text)

/-- A document that has been read only. -/
def uncheckedDocument (file : String) : Errand Document := do
  let text ← documentText file
  ofExcept (fun e => .ofReport (.ofFailure (.ofMalformed e))) (Document.ofText text)

/-- The arguments that a text lists. -/
def argsOf (text : String) : Except Problem (List Value) :=
  Json.decodeText (Json.each Value.decode) text

/-- The document with the arguments of a text after its own, if there is such a text. -/
def withFurtherArgs (document : Document) : Option String → Errand Document
  | none => return document
  | some text => do
    let args ← ofExcept
      (fun p => ⟨"--args must be a JSON array of input values", [p.message]⟩) (argsOf text)
    return document.withArgs (document.args.getD [] ++ args)

/-- The client of the settings. -/
def client (settings : Settings) : Errand Client :=
  ofExcept (fun e => .ofReport (.ofHeader e)) (Client.ofSettings settings)

/-- What comes of an exchange. -/
def answer {α : Type} (e : Exchange α) : Errand α := do
  ofExcept .ofReport (← (exchange e : Dialogue _))

/-- Check a document. -/
def runValidate (file : String) : Errand Unit := do
  let document ← checkedDocument file
  print ("ok: " ++ toString document.find.length ++ " find term(s), " ++
    toString (document.clauses.getD []).length ++ " clause(s)")

/-- Submit a document. -/
def runRun (settings : Settings) (file : String) (args : Option String) (skipValidation : Bool) :
    Errand Unit := do
  let document ← uncheckedDocument file
  let document ← withFurtherArgs document args
  unless skipValidation do
    ofExcept (fun e => .ofReport (.ofFailure (.ofValidate (.invalid e)))) document.validate
  let client ← client settings
  let body ← answer (client.submit document)
  print body.indented

/-- Have a document translated. -/
def runTranslate (settings : Settings) (file : String) : Errand Unit := do
  let document ← checkedDocument file
  let client ← client settings
  let body ← answer (client.translate document)
  print body.indented

/-- List the schema. -/
def runSchema (settings : Settings) (options : ListingOptions) : Errand Unit := do
  let client ← client settings
  let catalog ← answer client.fetchSchema
  if options.stats then (SchemaStats.ofCatalog catalog).lines.forM print
  else (listing (options.filter.apply catalog)).forM print

/-- Show the settings, but for the values of headers. -/
def runConfig (settings : Settings) : Errand Unit :=
  ExceptT.lift (.write .output settings.redacted.toToml (.done ()))

/-- Take documents and commands line by line. -/
def runShell (settings : Settings) : Errand Unit := do
  let client ← client settings
  print ("connected to " ++ settings.apiUrl ++ " (:help for commands)")
  match ← readSource .input with
  | .bytes content => Shell.session client (Shell.lines content.toList)
  | _ => return

/-- What a command does. -/
def errand (settings : Settings) : Command → Errand Unit
  | validate file => runValidate file
  | run file args skipValidation => runRun settings file args skipValidation
  | translate file => runTranslate settings file
  | schema options => runSchema settings options
  | config => runConfig settings
  | shell => runShell settings

end Command

/-- The status with which a program ends. -/
inductive Status where
  | success
  | failure
  /-- The command line means nothing. -/
  | misuse
deriving DecidableEq

/-- The number of a status. -/
def Status.code : Status → Nat
  | success => 0
  | failure => 1
  | misuse => 2

/-- What an invocation does. -/
def Invocation.dialogue (i : Invocation) : Dialogue Status := do
  match ← (do let settings ← i.settings; i.command.errand settings : Errand Unit).run with
  | .ok () => return .success
  | .error trouble =>
    .line .errors trouble.shown
    return .failure

/-- What a command line does, and the status it ends with. A question about the program is answered
by a text that is left out here. -/
def program (around : Surroundings) (arguments : List String) : Dialogue Status :=
  match Invocation.ofArguments around arguments with
  | .ok invocation => invocation.dialogue
  | .error (.inquiry _) => .done .success
  | .error (.misuse misuse) => do
    .line .errors misuse.message
    return .misuse

end DatalogClient
