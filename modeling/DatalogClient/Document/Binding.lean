import DatalogClient.Value.Wire

/-!
# Bindings

A binding says how one input, or the result of a function, is bound to variables: to one, to
several at once, to one for each item of a list, or to several for each row of a table.

## Main definitions

* `Binding` — the four forms
* `Binding.ofValue?` — the binding that a literal stands for
* `Binding.toJson`, `Binding.decode` — both ways of the wire form
-/

namespace DatalogClient

/-- How a value is bound to variables. -/
inductive Binding where
  /-- One variable. -/
  | scalar (var : String)
  /-- One variable for each position. -/
  | tuple (vars : List String)
  /-- One variable for every item. -/
  | collection (var : String)
  /-- One variable for each column of every row. -/
  | relation (vars : List String)
deriving DecidableEq

namespace Binding

/-- The mark behind the variable of a collection. -/
def collectionMark : String := "..."

/-- The variables in order. Blanks count. -/
def vars : Binding → List String
  | scalar var => [var]
  | collection var => [var]
  | tuple vars => vars
  | relation vars => vars

/-- The text looks like a variable, so that a plain attribute is not taken for one. -/
def looksLikeVariable (text : String) : Bool :=
  text == "_" || (match text.toList with
    | '?' :: _ => true
    | '$' :: _ => true
    | '%' :: _ => true
    | _ => false)

/-- The flat form of a list of texts. -/
def ofTexts : List String → Binding
  | [var, mark] => if mark = collectionMark then .collection var else .tuple [var, mark]
  | vars => .tuple vars

/-- The texts of literals that are plain texts all. -/
def textsOf? : List Value → Option (List String)
  | [] => some []
  | item :: rest =>
    match item.text? with
    | none => none
    | some text => (textsOf? rest).map (text :: ·)

/-- The binding that a literal stands for. -/
def ofValue? : Value → Option Binding
  | .text text => if looksLikeVariable text then some (.scalar text) else none
  | .list [.list inner] => (textsOf? inner).map .relation
  | .list items => (textsOf? items).map ofTexts
  | _ => none

/-- The wire form. -/
def toJson : Binding → Json
  | scalar var => .str var
  | tuple vars => .arr (vars.map .str)
  | collection var => .arr [.str var, .str collectionMark]
  | relation vars => .arr [.arr (vars.map .str)]

/-- The three shapes of the wire form. -/
inductive Shape where
  | text (text : String)
  | flat (texts : List String)
  | nested (rows : List (List String))

/-- The texts of values that are strings all. -/
def stringsOf? : List Json → Option (List String)
  | [] => some []
  | .str s :: rest => (stringsOf? rest).map (s :: ·)
  | _ :: _ => none

/-- The rows of values that are lists of strings all. -/
def rowsOf? : List Json → Option (List (List String))
  | [] => some []
  | .arr items :: rest =>
    match stringsOf? items with
    | none => none
    | some row => (rowsOf? rest).map (row :: ·)
  | _ :: _ => none

/-- The shape of a value. -/
def shapeOf? : Json → Option Shape
  | .str s => some (.text s)
  | .arr items =>
    match stringsOf? items with
    | some texts => some (.flat texts)
    | none => (rowsOf? items).map .nested
  | _ => none

/-- The decoder of bindings. -/
def decode : Decoder Binding := fun t =>
  match Json.inSomeForm "BindingFormWire" shapeOf? t with
  | .error p => .error p
  | .ok (.text text) => .ok (.scalar text)
  | .ok (.flat texts) => .ok (ofTexts texts)
  | .ok (.nested [row]) => .ok (.relation row)
  | .ok (.nested _) =>
    .error ⟨.refused "relation binding must hold exactly one variable list", none⟩

end Binding

end DatalogClient
