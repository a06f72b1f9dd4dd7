import DatalogClient.Program.Command

/-!
# Command lines

A command line is a list of words: options, a command, further options and the file of the
command. Options of every command may stand before or after the command, and count where they stand
later; each may be given once at a place. Two dashes alone end the options.

A command line may ask about the program instead: for help or for its version, by an option or by
the command of that name. It is read from left to right, and the first word that asks or that means
nothing decides. The texts that tell about the program are left out.

## Main definitions

* `Misuse`, `Inquiry` — why a command line means nothing, or what it asks for
* `Taken`, `readWords` — the options and plain words of a part of a command line
* `Invocation.ofArguments` — the invocation that a command line means
-/

namespace DatalogClient

/-- Why a command line means nothing. -/
inductive Misuse where
  | unknownOption (word : String)
  | valueMissing (name : String)
  | valueUnexpected (name : String)
  | repeated (name : String)
  | commandMissing
  | unknownCommand (word : String)
  | fileMissing
  | unexpected (word : String)

/-- The text of the misuse. -/
def Misuse.message : Misuse → String
  | unknownOption word => "error: unexpected argument '" ++ word ++ "' found"
  | valueMissing name => "error: a value is required for '--" ++ name ++ "' but none was supplied"
  | valueUnexpected name => "error: unexpected value for '--" ++ name ++ "' found"
  | repeated name => "error: the argument '--" ++ name ++ "' cannot be used multiple times"
  | commandMissing => "error: a command is required"
  | unknownCommand word => "error: unrecognized subcommand '" ++ word ++ "'"
  | fileMissing => "error: a file is required"
  | unexpected word => "error: unexpected argument '" ++ word ++ "' found"

/-- What a command line may ask for. -/
inductive Inquiry where
  | help
  | version

/-- What a command line is if it means no invocation. -/
inductive Aside where
  | inquiry (inquiry : Inquiry)
  | misuse (misuse : Misuse)

/-- A reading of command lines that may end early. -/
abbrev Parse (α : Type) := Except Aside α

/-- End with a misuse. -/
def Misuse.end {α : Type} (misuse : Misuse) : Parse α := .error (.misuse misuse)

/-- An option that may be given. -/
structure OptionForm where
  name : String
  letter : Option Char := none
  takesValue : Bool := false
  /-- Its value may not be empty. -/
  filled : Bool := false
  /-- It asks for something, and no more is read. -/
  asks : Option Inquiry := none

/-- Options and plain words that have been taken from a command line. -/
structure Taken where
  flags : List String := []
  values : List (String × String) := []
  words : List String := []

namespace Taken

/-- Take an option without a value. -/
def addFlag (t : Taken) (form : OptionForm) : Parse Taken :=
  match form.asks with
  | some inquiry => .error (.inquiry inquiry)
  | none =>
    if t.flags.contains form.name then (Misuse.repeated form.name).end
    else .ok { t with flags := form.name :: t.flags }

/-- Take an option with its value. -/
def addValue (t : Taken) (form : OptionForm) (value : String) : Parse Taken :=
  if form.filled && value = "" then (Misuse.valueMissing form.name).end
  else if (t.values.lookup form.name).isSome then (Misuse.repeated form.name).end
  else .ok { t with values := (form.name, value) :: t.values }

/-- Take a plain word, if there is room for one more. It names a file. -/
def addWord (room : Nat) (t : Taken) (word : String) : Parse Taken :=
  if room ≤ t.words.length then (Misuse.unexpected word).end
  else if word = "" then Misuse.fileMissing.end
  else .ok { t with words := t.words ++ [word] }

/-- The option was given. -/
def has (t : Taken) (name : String) : Bool := t.flags.contains name

/-- The value of an option. -/
def value? (t : Taken) (name : String) : Option String := t.values.lookup name

end Taken

/-- What a word of a command line is. -/
inductive Word where
  /-- Two dashes: what follows are plain words. -/
  | stop
  /-- An option by its name, perhaps with its value. -/
  | long (name : String) (value : Option String)
  /-- Options by their letters. -/
  | letters (letters : List Char)
  | plain

/-- What a word is. A dash alone is a plain word. -/
def Word.ofText (word : String) : Word :=
  match word.toList with
  | ['-', '-'] => .stop
  | '-' :: '-' :: rest =>
    let name := rest.takeWhile (· != '=')
    .long (String.ofList name)
      ((rest.drop name.length).tail?.map String.ofList)
  | '-' :: c :: rest => .letters (c :: rest)
  | _ => .plain

/-- Take options by their letters. -/
def addLetters (forms : List OptionForm) (word : String) : List Char → Taken → Parse Taken
  | [], t => .ok t
  | c :: rest, t =>
    match forms.find? fun form => form.letter = some c with
    | some form => (t.addFlag form).bind (addLetters forms word rest)
    | none => (Misuse.unknownOption word).end

/-- Take options and plain words from a command line: all of them, if there is room for so many
plain words, or those before the first plain word, and then the rest is what begins with it. -/
def readWords (forms : List OptionForm) (room : Option Nat) :
    List String → Taken → Parse (Taken × List String)
  | [], t => .ok (t, [])
  | word :: rest, t =>
    match Word.ofText word with
    | .stop =>
      match room with
      | some room => (rest.foldlM (Taken.addWord room) t).map (·, [])
      | none => Misuse.commandMissing.end
    | .plain =>
      match room with
      | some n => (t.addWord n word).bind (readWords forms room rest)
      | none => .ok (t, word :: rest)
    | .letters letters => (addLetters forms word letters t).bind (readWords forms room rest)
    | .long name value =>
      match forms.find? fun form => form.name = name with
      | none => (Misuse.unknownOption word).end
      | some form =>
        if form.takesValue then
          match value, rest with
          | some value, rest => (t.addValue form value).bind (readWords forms room rest)
          | none, [] => (Misuse.valueMissing name).end
          | none, value :: rest =>
            match Word.ofText value with
            | .plain => (t.addValue form value).bind (readWords forms room rest)
            | _ => (Misuse.valueMissing name).end
        else if value.isSome then (Misuse.valueUnexpected name).end
        else (t.addFlag form).bind (readWords forms room rest)

/-- The option that asks for help. -/
def helpForm : OptionForm := { name := "help", letter := some 'h', asks := some .help }

/-- The option that asks for the version; it stands before the command. -/
def versionForm : OptionForm := { name := "version", letter := some 'V', asks := some .version }

/-- The options of every command. -/
def sharedForms : List OptionForm :=
  [{ name := "verbose", letter := some 'v' },
   { name := "config", takesValue := true, filled := true },
   { name := "api-url", takesValue := true }, helpForm]

/-- The further options of a command. -/
def formsOf : String → List OptionForm
  | "run" => [{ name := "args", takesValue := true }, { name := "skip-validation" }]
  | "schema" =>
    [{ name := "search", takesValue := true }, { name := "only-unique" },
     { name := "only-components" }, { name := "no-ident" }, { name := "no-fn" },
     { name := "no-attribute" }, { name := "stats" }]
  | _ => []

/-- The commands, and how many plain words there may be after each. -/
def Command.forms : List (String × Nat) :=
  [("validate", 1), ("run", 1), ("translate", 1), ("schema", 0), ("config", 0), ("shell", 0)]

/-- The command of a name, with the options and plain words after it. -/
def Command.ofTaken (name : String) (t : Taken) : Parse Command :=
  match name, t.words with
  | "validate", file :: _ => .ok (.validate file)
  | "run", file :: _ => .ok (.run file (t.value? "args") (t.has "skip-validation"))
  | "translate", file :: _ => .ok (.translate file)
  | "schema", _ =>
    .ok (.schema
      { search := t.value? "search"
        onlyUnique := t.has "only-unique"
        onlyComponents := t.has "only-components"
        noIdent := t.has "no-ident"
        noFunction := t.has "no-fn"
        noAttribute := t.has "no-attribute"
        stats := t.has "stats" })
  | "config", _ => .ok .config
  | "shell", _ => .ok .shell
  | _, _ => Misuse.fileMissing.end

/-- What is asked by the command `help` and the words after it, which may name a command. -/
def Inquiry.ofWords : List String → Aside
  | [] => .inquiry .help
  | name :: rest =>
    if name = "help" || (Command.forms.lookup name).isSome then
      match rest with
      | [] => .inquiry .help
      | word :: _ => .misuse (.unknownCommand word)
    else .misuse (.unknownCommand name)

/-- The invocation that a command line means. -/
def Invocation.ofArguments (around : Surroundings) (arguments : List String) :
    Parse Invocation := do
  let (before, rest) ← readWords (versionForm :: sharedForms) none arguments {}
  match rest with
  | [] => Misuse.commandMissing.end
  | name :: rest =>
    if name = "help" then .error (Inquiry.ofWords rest)
    else
      match Command.forms.lookup name with
      | none => (Misuse.unknownCommand name).end
      | some room =>
        let (after, _) ← readWords (sharedForms ++ formsOf name) (some room) rest {}
        let command ← Command.ofTaken name after
        let value (option : String) : Option String :=
          (after.value? option).or (before.value? option)
        let config := ((value "config").or around.config).getD "dq.toml"
        if config = "" then (Misuse.valueMissing "config").end
        else
          .ok
            { command
              verbose := before.has "verbose" || after.has "verbose"
              config
              apiUrl := (value "api-url").or around.apiUrl }

end DatalogClient
