/-!
# JSON values

A JSON value keeps the order of its members and, if read from text, repeated member names too.
A value in which the last of several members of one name has taken the place of the first is
called collapsed.

## Main definitions

* `Number`, `Json` — numbers and values
* `latest` — of the entries of one name, the last value at the first place
* `Json.collapse` — a value without repeated names
* `Json.member?` — the member of a name
-/

namespace DatalogClient

/-- A JSON number: an integer that is kept whole, or a 64-bit floating-point number. -/
inductive Number where
  | int (value : Int)
  | float (value : Float)

/-- A JSON value. -/
inductive Json where
  | null
  | bool (value : Bool)
  | num (value : Number)
  | str (value : String)
  | arr (items : List Json)
  | obj (members : List (String × Json))

namespace Json

variable {α : Type}

/-- Write an entry over the first one of its name, or add it at the end. -/
def overwrite (name : String) (value : α) : List (String × α) → List (String × α)
  | [] => [(name, value)]
  | (n, v) :: rest => if n = name then (n, value) :: rest else (n, v) :: overwrite name value rest

/-- Of several entries of one name only the last value stays, at the place of the first. -/
def latest (entries : List (String × α)) : List (String × α) :=
  entries.foldl (fun kept entry => overwrite entry.1 entry.2 kept) []

mutual

/-- The value without repeated names, at any depth. -/
def collapse : Json → Json
  | .arr items => .arr (collapseItems items)
  | .obj members => .obj (latest (collapseMembers members))
  | .null => .null
  | .bool b => .bool b
  | .num n => .num n
  | .str s => .str s

/-- Every item collapsed. -/
def collapseItems : List Json → List Json
  | [] => []
  | item :: rest => collapse item :: collapseItems rest

/-- Every member's value collapsed. -/
def collapseMembers : List (String × Json) → List (String × Json)
  | [] => []
  | (name, value) :: rest => (name, collapse value) :: collapseMembers rest

end

/-- The first entry of a name. -/
def lookup (name : String) (entries : List (String × α)) : Option α :=
  (entries.find? fun entry => entry.1 = name).map (·.2)

/-- The member of a name, if the value is an object that has one. -/
def member? (name : String) : Json → Option Json
  | .obj members => lookup name members
  | _ => none

/-- The text of a string. -/
def text? : Json → Option String
  | .str s => some s
  | _ => none

/-- An integer. -/
def int (n : Int) : Json := .num (.int n)

end Json

end DatalogClient
