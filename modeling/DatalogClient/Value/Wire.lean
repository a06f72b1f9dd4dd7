import DatalogClient.Json.Decode
import DatalogClient.Value.Basic

/-!
# Literals on the wire

A typed text is written as an object of its kind and its text; it may be read from a list of the
two as well. Every other literal is written as the JSON value that it is. When read, an integer too
great for a signed word becomes a floating-point number.

## Main definitions

* `Value.toJson`, `TypedText.toJson` — the wire forms
* `Value.ofJson?` — the literal of a wire form
* `Value.decode`, `TypedText.decode` — the decoders
-/

namespace DatalogClient

/-- A typed text is an object of kind and text. -/
def TypedText.toJson (t : TypedText) : Json :=
  .obj [("type", .str t.kind.name), ("value", .str t.text)]

mutual

/-- The wire form of a literal. A number that is not finite has none of its own. -/
def Value.toJson : Value → Json
  | .bool b => .bool b
  | .int n => .int n.toInt
  | .float x => if x.isFinite then .num (.float x) else .null
  | .text s => .str s
  | .typed t => t.toJson
  | .list items => .arr (Value.listToJson items)

/-- The wire forms of several literals. -/
def Value.listToJson : List Value → List Json
  | [] => []
  | item :: rest => item.toJson :: Value.listToJson rest

end

/-! ### Reading -/

namespace TypedText

/-- The kind that a value names: its name, or an object of its name and null. -/
def kindOf? : Json → Option Kind
  | .str name => Kind.ofName? name
  | .obj [(name, .null)] => Kind.ofName? name
  | _ => none

/-- The kind at the head of a list: its name or its number. -/
def kindAtHead? : Json → Option Kind
  | .str name => Kind.ofName? name
  | .num (.int n) => if n < 0 then none else Kind.all[n.toNat]?
  | _ => none

/-- The typed text of a list of kind and text. -/
def ofItems? : List Json → Option TypedText
  | [head, .str text] => (kindAtHead? head).map fun kind => ⟨kind, text⟩
  | _ => none

/-- The values of a name, of which there may be several. -/
def valuesOf (name : String) (members : List (String × Json)) : List Json :=
  (members.filter fun member => member.1 = name).map (·.2)

/-- The typed text of an object. Kind and text stand there once each; other members do not
matter. -/
def ofMembers? (members : List (String × Json)) : Option TypedText :=
  match valuesOf "type" members, valuesOf "value" members with
  | [tag], [.str text] => (kindOf? tag).map fun kind => ⟨kind, text⟩
  | _, _ => none

end TypedText

namespace Value

/-- An integer is kept whole if a signed word holds it. -/
def ofInt (n : Int) : Value :=
  if Int64.minValue.toInt ≤ n ∧ n ≤ Int64.maxValue.toInt then .int (Int64.ofInt n)
  else .float n.toNat.toUInt64.toFloat

mutual

/-- The literal of a wire form. A list that can be a typed text is one. -/
def ofJson? : Json → Option Value
  | .null => none
  | .bool b => some (.bool b)
  | .num (.int n) => some (ofInt n)
  | .num (.float x) => some (.float x)
  | .str s => some (.text s)
  | .arr items =>
    match TypedText.ofItems? items with
    | some t => some (.typed t)
    | none => (listOfJson? items).map .list
  | .obj members => (TypedText.ofMembers? members).map .typed

/-- The literals of several wire forms. -/
def listOfJson? : List Json → Option (List Value)
  | [] => some []
  | item :: rest =>
    match ofJson? item with
    | none => none
    | some value => (listOfJson? rest).map (value :: ·)

end

/-- The decoder of literals. -/
def decode : Decoder Value := Json.inSomeForm "Value" ofJson?

end Value

namespace TypedText

/-- How messages call the type. -/
def title : String := "adjacently tagged enum ComplexValue"

/-- The kinds as a choice of names. -/
def kindChoices : List (Json.Choice Kind) := Kind.all.map fun kind => .plain kind.name kind

/-- The decoder of a kind that stands at the head of a list. -/
def decodeHead : Decoder Kind
  | .scalar (.str name) _ stop => do (← Json.pick kindChoices name stop).alone
  | other => .error (other.wrongType "variant identifier")

/-- What has been read of an object: nothing of interest, the kind, the text, or both. -/
inductive Draft where
  | nothing
  | kind (kind : Kind)
  | content (value : Json)
  | full (value : TypedText)

/-- A text that was read before its kind. -/
def ofContent (kind : Kind) (content : Json) : Except Problem TypedText :=
  (Json.text (.ofJson content)).map fun text => ⟨kind, text⟩

/-- Take the kind. -/
def Draft.addKind (draft : Draft) (value : Located) (nameLeave leave : Option Place) :
    Except Problem Draft :=
  match draft with
  | .nothing =>
    match Json.choice kindChoices value with
    | .error p => .error (p.at? leave)
    | .ok k => .ok (.kind k)
  | .content found =>
    match do ofContent (← Json.choice kindChoices value) found with
    | .error p => .error (p.at? leave)
    | .ok t => .ok (.full t)
  | .kind .. => .error ⟨.duplicateField "type", nameLeave⟩
  | .full .. => .error ⟨.duplicateField "type", nameLeave⟩

/-- Take the text. -/
def Draft.addText (draft : Draft) (value : Located) (nameLeave leave : Option Place) :
    Except Problem Draft :=
  match draft with
  | .nothing =>
    match Json.whole value with
    | .error p => .error (p.at? leave)
    | .ok found => .ok (.content found)
  | .kind k =>
    match Json.text value with
    | .error p => .error (p.at? leave)
    | .ok text => .ok (.full ⟨k, text⟩)
  | .content .. => .error ⟨.duplicateField "value", nameLeave⟩
  | .full .. => .error ⟨.duplicateField "value", nameLeave⟩

/-- The typed text of an object of which some has been read. -/
def ofMembers (draft : Draft) : Members → Except Problem TypedText
  | .close stop =>
    match draft with
    | .full t => .ok t
    | .kind _ => .error ⟨.missingField "value", stop⟩
    | _ => .error ⟨.missingField "type", stop⟩
  | .broken fault _ => .error fault.problem
  | .member name _ nameLeave value unskippable leave rest =>
    if name = "type" then do ofMembers (← draft.addKind value nameLeave leave) rest
    else if name = "value" then do ofMembers (← draft.addText value nameLeave leave) rest
    else
      match unskippable with
      | some fault => .error fault.problem
      | none => ofMembers draft rest

/-- The typed text of a list. -/
def ofItems : Items → Except Problem TypedText
  | .close stop => .error ⟨.wrongLength 0 title, stop⟩
  | .broken fault _ => .error fault.problem
  | .item _ head leave rest =>
    match decodeHead head with
    | .error p => .error (p.at? leave)
    | .ok kind =>
      match rest with
      | .close stop => .error ⟨.wrongLength 1 title, stop⟩
      | .broken fault _ => .error fault.problem
      | .item _ value leave rest =>
        match Json.text value with
        | .error p => .error (p.at? leave)
        | .ok text =>
          match rest with
          | .close _ => .ok ⟨kind, text⟩
          | .broken _ surplus => .error surplus
          | .item surplus _ _ _ => .error surplus

/-- The decoder of typed texts. -/
def decode : Decoder TypedText
  | .object _ members => ofMembers .nothing members
  | .list _ items => ofItems items
  | other => .error (other.wrongType title)

end TypedText

end DatalogClient
