import DatalogClient.Client
import DatalogClient.Program.Dialogue

/-!
# Trouble

Trouble ends a program. It is told in one message, with the causes behind it, each the cause of the
one before.

## Main definitions

* `Trouble`, `Trouble.shown` — the message and the causes, and how they are laid out
* `Errand` — a dialogue that may end in trouble
-/

namespace DatalogClient

/-- What ended a program. -/
structure Trouble where
  message : String
  causes : List String := []

namespace Trouble

/-- The trouble of a report. -/
def ofReport (r : Report) : Trouble := { message := r.message }

/-- The trouble of settings that cannot be had. What the system says is the last of the causes. -/
def ofConfig : ConfigError → Trouble
  | .read path reason => { message := (ConfigError.read path reason).message, causes := [reason] }
  | e => { message := e.message }

/-- The same trouble as the cause of another. -/
def during (t : Trouble) (message : String) : Trouble := ⟨message, t.message :: t.causes⟩

/-- A text whose lines after the first are indented. -/
def indentRest (width : Nat) (text : String) : String :=
  String.ofList (text.toList.flatMap fun c =>
    if c = '\n' then '\n' :: List.replicate width ' ' else [c])

/-- A number in a column of five, on the right. -/
def column (n : Nat) : String :=
  let digits := (toString n).toList
  String.ofList (List.replicate (5 - digits.length) ' ' ++ digits)

/-- The causes, one a line. One cause stands alone, several are numbered from zero. -/
def causeLines : List String → List String
  | [cause] => ["    " ++ indentRest 4 cause]
  | causes => causes.mapIdx fun i cause => column i ++ ": " ++ indentRest 7 cause

/-- The trouble as it is shown to the user. -/
def shown (t : Trouble) : String :=
  let reasons := if t.causes.isEmpty then [] else "" :: "Caused by:" :: causeLines t.causes
  "\n".intercalate (("Error: " ++ t.message) :: reasons)

end Trouble

/-- What a program does until it is through or in trouble. -/
abbrev Errand := ExceptT Trouble Dialogue

namespace Errand

variable {α : Type}

/-- Trouble, or nothing to do. -/
def ofExcept {ε : Type} (trouble : ε → Trouble) (e : Except ε α) : Errand α :=
  ExceptT.mk (.done (e.mapError trouble))

/-- Write a line of output. -/
def print (text : String) : Errand Unit := ExceptT.lift (.line .output text)

/-- Read a source. -/
def readSource (name : SourceName) : Errand Source := ExceptT.mk (.read name fun s => .done (.ok s))

/-- Have an exchange, and take what comes of it. -/
def exchange (e : Exchange α) : Dialogue (Except Report α) :=
  .send e.request fun outcome => .done ((e.read outcome).mapError fun e => .ofFailure (.ofSubmit e))

end Errand

end DatalogClient
