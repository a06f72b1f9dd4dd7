import DatalogClient.Json.Located

/-!
# Decoding JSON

Decoders read a `Located` tree from left to right. The first problem that is met is the answer; a
problem that does not know its place gets the place at which the innermost container is left.

A record is an object, or a list of the values of its fields in order. A choice is a name, with
content an object of that name alone. A value of several forms is taken as a whole, faults first,
and tried against each form in turn.

## Main definitions

* `Decoder` — a way to read a value of a type
* `text`, `flag`, `each`, `optional`, `anything`, `inSomeForm` — decoders of plain values
* `Choice`, `choice` — a name with or without content
* `RecordField`, `Record`, `Record.decode` — objects of known fields
-/

namespace DatalogClient

/-- A way to read a value of a type from a tree. -/
abbrev Decoder (α : Type) := Located → Except Problem α

namespace Json

variable {α β δ : Type}

/-- A string. -/
def text : Decoder String
  | .scalar (.str s) _ _ => .ok s
  | other => .error (other.wrongType "a string")

/-- A truth value. -/
def flag : Decoder Bool
  | .scalar (.bool b) _ _ => .ok b
  | other => .error (other.wrongType "a boolean")

/-- Nothing, written as null. -/
def nothing : Decoder Unit
  | .scalar .null _ _ => .ok ()
  | other => .error (other.wrongType "unit")

/-- The items from here on. -/
def eachItem (decode : Decoder α) : Items → Except Problem (List α)
  | .close _ => .ok []
  | .broken fault _ => .error fault.problem
  | .item _ value leave rest =>
    match decode value with
    | .error p => .error (p.at? leave)
    | .ok a => (eachItem decode rest).map (a :: ·)

/-- A list. -/
def each (decode : Decoder α) : Decoder (List α)
  | .list _ items => eachItem decode items
  | other => .error (other.wrongType "a sequence")

/-- Null, or a value. -/
def optional (decode : Decoder α) : Decoder (Option α)
  | .scalar .null _ _ => .ok none
  | other => (decode other).map some

/-- A value that is read as a whole. -/
def whole (t : Located) : Except Problem Json :=
  match t.json with
  | .ok j => .ok j
  | .error fault => .error fault.problem

/-- Any value, without repeated names. -/
def anything : Decoder Json := fun t => (whole t).map collapse

/-- A value that has one of the forms of a type. -/
def inSomeForm (type : String) (read : Json → Option α) : Decoder α := fun t =>
  match whole t with
  | .error p => .error p
  | .ok j =>
    match read j with
    | some a => .ok a
    | none => .error ⟨.noForm type, none⟩

/-! ### Choices -/

/-- One of the names of a choice. -/
inductive Choice (α : Type) where
  /-- The name alone. -/
  | plain (name : String) (value : α)
  /-- The name with content. -/
  | carrying (name : String) (content : Decoder α)

/-- The name of a choice. -/
def Choice.name : Choice α → String
  | plain name _ => name
  | carrying name _ => name

/-- The choice whose name stands alone. -/
def Choice.alone : Choice α → Except Problem α
  | plain _ value => .ok value
  | carrying _ _ => .error ⟨.wrongType .bareName "newtype variant", none⟩

/-- The choice with what stands beside its name; beside a plain name stands null. -/
def Choice.beside : Choice α → Decoder α
  | plain _ value => fun t => (nothing t).map fun _ => value
  | carrying _ content => content

/-- The choice of a name. -/
def pick (choices : List (Choice α)) (name : String) (place : Option Place) :
    Except Problem (Choice α) :=
  match choices.find? fun c => c.name = name with
  | some c => .ok c
  | none => .error ⟨.unknownName name (choices.map Choice.name), place⟩

/-- The object of a choice. Only a text shows an empty object as a value that is missing, and only
there the name is looked at before the number of members. -/
def choiceMember (choices : List (Choice α)) (inText : Bool) : Members → Except Problem α
  | .close stop => .error (if inText then ⟨.flaw .valueMissing, stop⟩ else ⟨.notOneMember, none⟩)
  | .broken _ asName => .error asName
  | .member name nameStop _ value _ leave rest =>
    let single := match rest with
      | .close _ => true
      | _ => false
    if !inText && !single then .error ⟨.notOneMember, none⟩
    else
      match pick choices name nameStop with
      | .error p => .error p
      | .ok c =>
        match c.beside value with
        | .error p => .error p
        | .ok a =>
          match rest with
          | .close _ => .ok a
          | .broken ⟨.objectEnds, place⟩ _ => .error ⟨.flaw .objectEnds, some place⟩
          | _ => .error ⟨.flaw .valueMissing, leave⟩

/-- A value that is no choice at all. A text shows it as one that is missing. -/
def noChoice (start : Option Place) (found : Found) : Problem :=
  match start with
  | some p => ⟨.flaw .valueMissing, some ⟨p.line, p.column + 1⟩⟩
  | none => ⟨.wrongType found "string or map", none⟩

/-- A choice: a name, or an object of one member. -/
def choice (choices : List (Choice α)) : Decoder α
  | .scalar (.str name) _ stop => do (← pick choices name stop).alone
  | .object start members => choiceMember choices start.isSome members
  | .broken _ asName => .error asName.problem
  | .scalar value start _ => .error (noChoice start (.scalar value))
  | .list start _ => .error (noChoice start .list)

/-! ### Records -/

/-- A field of a record. What has been read of the record is a draft. -/
structure RecordField (δ : Type) where
  name : String
  /-- A list that ends before the field is refused. -/
  required : Bool
  /-- The field has been read. -/
  isFilled : δ → Bool
  /-- Read the field. -/
  fill : Located → δ → Except Problem δ

/-- A field that the draft keeps in one place. -/
def RecordField.of (name : String) (required : Bool) (decode : Decoder β) (get : δ → Option β)
    (set : β → δ → δ) : RecordField δ where
  name := name
  required := required
  isFilled draft := (get draft).isSome
  fill value draft := (decode value).map fun b => set b draft

/-- An object of known fields, or the list of their values. -/
structure Record (δ α : Type) where
  title : String
  /-- Members of other names are refused. -/
  strict : Bool
  fields : List (RecordField δ)
  /-- The draft of nothing. -/
  blank : δ
  /-- The record of a draft, or the name of a field that it lacks. -/
  build : δ → Except String α

/-- A field that may not be absent. -/
def need (name : String) : Option β → Except String β
  | some b => .ok b
  | none => .error name

/-- What a list of the wrong length was to be. -/
def Record.expected (r : Record δ α) : String :=
  r.title ++ " with " ++ toString r.fields.length ++
    (if r.fields.length = 1 then " element" else " elements")

/-- The record of a draft; a field that it lacks is missed at the given place. -/
def Record.finish (r : Record δ α) (draft : δ) (place : Option Place) : Except Problem α :=
  match r.build draft with
  | .ok a => .ok a
  | .error name => .error ⟨.missingField name, place⟩

/-- The record from its members. -/
def Record.ofMembers (r : Record δ α) (draft : δ) : Members → Except Problem α
  | .close stop => r.finish draft stop
  | .broken fault _ => .error fault.problem
  | .member name _ nameLeave value unskippable leave rest =>
    match r.fields.find? fun field => field.name = name with
    | some field =>
      if field.isFilled draft then .error ⟨.duplicateField name, nameLeave⟩
      else
        match field.fill value draft with
        | .error p => .error (p.at? leave)
        | .ok draft => r.ofMembers draft rest
    | none =>
      if r.strict then .error ⟨.unknownField name (r.fields.map (·.name)), nameLeave⟩
      else
        match unskippable with
        | some fault => .error fault.problem
        | none => r.ofMembers draft rest

/-- The record from the values of the fields that are left, of which so many came before. -/
def Record.ofItems (r : Record δ α) : List (RecordField δ) → Nat → δ → Items → Except Problem α
  | [], _, draft, .close stop => r.finish draft stop
  | [], _, _, .broken _ surplus => .error surplus
  | [], _, _, .item surplus _ _ _ => .error surplus
  | field :: fields, n, draft, .close stop =>
    if field.required then .error ⟨.wrongLength n r.expected, stop⟩
    else r.ofItems fields (n + 1) draft (.close stop)
  | _ :: _, _, _, .broken fault _ => .error fault.problem
  | field :: fields, n, draft, .item _ value leave rest =>
    match field.fill value draft with
    | .error p => .error (p.at? leave)
    | .ok draft => r.ofItems fields (n + 1) draft rest

/-- A record. -/
def Record.decode (r : Record δ α) : Decoder α
  | .object _ members => r.ofMembers r.blank members
  | .list _ items => r.ofItems r.fields 0 r.blank items
  | other => .error (other.wrongType r.title)

end Json

end DatalogClient
