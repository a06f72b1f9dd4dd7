import DatalogClient.Decimal.Notation
import DatalogClient.Json.Basic
import DatalogClient.Text.Quoted

/-!
# What can be wrong with a JSON text

A text may break the rules of JSON (a `Flaw` at a place), or hold something other than what is
wanted (a `Cause`). A `Problem` is a cause with the place where it was met; there is no place for
values that were not read from text.

## Main definitions

* `Place` — a line and the bytes before a point of that line
* `Flaw`, `Fault` — a broken rule of JSON, and where
* `Cause`, `Problem` — why a value was refused, and where
* `Problem.at?` — give a problem a place unless it has one
* `Problem.message` — the text of a problem
-/

namespace DatalogClient

/-- A point of a text: the line, from one on, and the number of bytes before it in that line. -/
structure Place where
  line : Nat
  column : Nat
deriving DecidableEq

/-- A broken rule of JSON. -/
inductive Flaw where
  | listEnds
  | objectEnds
  | stringEnds
  | valueEnds
  | colonMissing
  | listSeparator
  | objectSeparator
  | wordUnknown
  | valueMissing
  | escapeUnknown
  | numberMalformed
  | numberTooLarge
  | surrogateAlone
  | surrogateUnpaired
  | controlCharacter
  | nameUnquoted
  | commaBeforeEnd
  | textAfterEnd
  | nestedTooDeep
deriving DecidableEq

/-- The text of a broken rule. -/
def Flaw.message : Flaw → String
  | listEnds => "EOF while parsing a list"
  | objectEnds => "EOF while parsing an object"
  | stringEnds => "EOF while parsing a string"
  | valueEnds => "EOF while parsing a value"
  | colonMissing => "expected `:`"
  | listSeparator => "expected `,` or `]`"
  | objectSeparator => "expected `,` or `\x7d`"
  | wordUnknown => "expected ident"
  | valueMissing => "expected value"
  | escapeUnknown => "invalid escape"
  | numberMalformed => "invalid number"
  | numberTooLarge => "number out of range"
  | surrogateAlone => "lone leading surrogate in hex escape"
  | surrogateUnpaired => "unexpected end of hex escape"
  | controlCharacter => "control character (\\u0000-\\u001F) found while parsing a string"
  | nameUnquoted => "key must be a string"
  | commaBeforeEnd => "trailing comma"
  | textAfterEnd => "trailing characters"
  | nestedTooDeep => "recursion limit exceeded"

/-- A broken rule and where it shows. -/
structure Fault where
  flaw : Flaw
  place : Place
deriving DecidableEq

/-- A scalar of JSON. -/
inductive Scalar where
  | null
  | bool (value : Bool)
  | num (value : Number)
  | str (value : String)

/-- The value that a scalar is. -/
def Scalar.json : Scalar → Json
  | null => .null
  | bool b => .bool b
  | num n => .num n
  | str s => .str s

/-- What was found where something else was wanted. -/
inductive Found where
  | scalar (value : Scalar)
  | list
  | object
  | bareName

/-- How a message names what was found. -/
def Found.describe : Found → String
  | scalar .null => "null"
  | scalar (.bool b) => "boolean `" ++ (if b then "true" else "false") ++ "`"
  | scalar (.num (.int n)) => "integer `" ++ toString n ++ "`"
  | scalar (.num (.float x)) => "floating point `" ++ Decimal.wire.double x ++ "`"
  | scalar (.str s) => "string " ++ Text.quoted s
  | list => "sequence"
  | object => "map"
  | bareName => "unit variant"

/-- Why a value was refused. -/
inductive Cause where
  /-- The text breaks a rule of JSON. -/
  | flaw (rule : Flaw)
  /-- Something of another type was found. -/
  | wrongType (found : Found) (expected : String)
  /-- A name with content is an object of exactly one member. -/
  | notOneMember
  | missingField (name : String)
  | duplicateField (name : String)
  | unknownField (name : String) (known : List String)
  /-- A name that is none of the known ones. -/
  | unknownName (name : String) (known : List String)
  | wrongLength (length : Nat) (expected : String)
  /-- The value has none of the forms of a type. -/
  | noForm (type : String)
  /-- A rule of the domain is broken. -/
  | refused (reason : String)

/-- Names between backticks, as the choices that there are. -/
def choices (names : List String) : String :=
  match names.map fun name => "`" ++ name ++ "`" with
  | [a] => a
  | [a, b] => a ++ " or " ++ b
  | many => "one of " ++ ", ".intercalate many

/-- The text of a cause. -/
def Cause.message : Cause → String
  | flaw rule => rule.message
  | wrongType found expected => "invalid type: " ++ found.describe ++ ", expected " ++ expected
  | notOneMember => "invalid value: map, expected map with a single key"
  | missingField name => "missing field `" ++ name ++ "`"
  | duplicateField name => "duplicate field `" ++ name ++ "`"
  | unknownField name known => "unknown field `" ++ name ++ "`, expected " ++ choices known
  | unknownName name known => "unknown variant `" ++ name ++ "`, expected " ++ choices known
  | wrongLength length expected =>
    "invalid length " ++ toString length ++ ", expected " ++ expected
  | noForm type => "data did not match any variant of untagged enum " ++ type
  | refused reason => reason

/-- A cause and the place where it was met, if that is known. -/
structure Problem where
  cause : Cause
  place : Option Place

/-- A broken rule of JSON as a problem. -/
def Fault.problem (f : Fault) : Problem := ⟨.flaw f.flaw, some f.place⟩

/-- A problem keeps the place that it was given first. -/
def Problem.at? (p : Problem) (place : Option Place) : Problem :=
  { p with place := p.place.or place }

/-- The text of a problem. -/
def Problem.message (p : Problem) : String :=
  match p.place with
  | some place =>
    p.cause.message ++ " at line " ++ toString place.line ++ " column " ++ toString place.column
  | none => p.cause.message

end DatalogClient
