import DatalogClient.Json.Problem

/-!
# JSON with places

A `Located` tree is a JSON text as far as it can be read: values with the places at which a reader
stands before and after them, and, where the text breaks a rule, the fault instead of a value.
Decoding follows the tree from left to right, so that of two problems the earlier one is reported.

The same decoders serve for values that were never text: such a value is a tree without places.

## Main definitions

* `Located`, `Items`, `Members` — the tree
* `Located.ofJson` — a value as a tree without places
* `Located.json` — the value of a tree, or its first fault
* `Located.wrongType` — the problem of a reader that wants something else
-/

namespace DatalogClient

mutual

/-- A value of a text, or the fault that stands in its place. -/
inductive Located where
  /-- Nothing can be read here. `asName` is the fault for a reader that wants a name. -/
  | broken (fault asName : Fault)
  /-- A scalar, with the places before and after it. -/
  | scalar (value : Scalar) (start stop : Option Place)
  /-- A list, with the place before it. -/
  | list (start : Option Place) (items : Items)
  /-- An object, with the place before it. -/
  | object (start : Option Place) (members : Members)

/-- The rest of a list. -/
inductive Items where
  /-- The list ends, with the place after it. -/
  | close (stop : Option Place)
  /-- Neither an item nor the end follows. `surplus` is the problem of a reader that wants the
  end. -/
  | broken (fault : Fault) (surplus : Problem)
  /-- One more item. `surplus` is the problem of a reader that wants the end; `leave` is where a
  reader stands that gives up after the item. -/
  | item (surplus : Problem) (value : Located) (leave : Option Place) (rest : Items)

/-- The rest of an object. -/
inductive Members where
  /-- The object ends, with the place after it. -/
  | close (stop : Option Place)
  /-- Neither a member nor the end follows. `asName` is the problem of a reader that takes the
  object for a name with content. -/
  | broken (fault : Fault) (asName : Problem)
  /-- One more member, with the place after its name, and the places where a reader stands that
  gives up after the name and after the value. `unskippable` is the fault of a reader that passes
  over the value. -/
  | member (name : String) (nameStop nameLeave : Option Place) (value : Located)
      (unskippable : Option Fault) (leave : Option Place) (rest : Members)

end

/-! ### Values without places -/

mutual

/-- A value as a tree without places. -/
def Located.ofJson : Json → Located
  | .null => .scalar .null none none
  | .bool b => .scalar (.bool b) none none
  | .num n => .scalar (.num n) none none
  | .str s => .scalar (.str s) none none
  | .arr items => .list none (Items.ofJson items.length items)
  | .obj members => .object none (Members.ofJson members)

/-- The items of a list of the given length; a reader that leaves some of them is told so. -/
def Items.ofJson (length : Nat) : List Json → Items
  | [] => .close none
  | item :: rest =>
    .item ⟨.wrongLength length "fewer elements in array", none⟩ (Located.ofJson item) none
      (Items.ofJson length rest)

/-- The members of an object. -/
def Members.ofJson : List (String × Json) → Members
  | [] => .close none
  | (name, value) :: rest =>
    .member name none none (Located.ofJson value) none none (Members.ofJson rest)

end

/-! ### The value of a tree -/

mutual

/-- The value of a tree with its repeated names, or its first fault. -/
def Located.json : Located → Except Fault Json
  | .broken fault _ => .error fault
  | .scalar value _ _ => .ok value.json
  | .list _ items => (Items.json items).map .arr
  | .object _ members => (Members.json members).map .obj

/-- The values of the items. -/
def Items.json : Items → Except Fault (List Json)
  | .close _ => .ok []
  | .broken fault _ => .error fault
  | .item _ value _ rest =>
    match Located.json value with
    | .error fault => .error fault
    | .ok item => (Items.json rest).map (item :: ·)

/-- The names and values of the members. -/
def Members.json : Members → Except Fault (List (String × Json))
  | .close _ => .ok []
  | .broken fault _ => .error fault
  | .member name _ _ value _ _ rest =>
    match Located.json value with
    | .error fault => .error fault
    | .ok item => (Members.json rest).map ((name, item) :: ·)

end

/-- The problem of a reader that wants something else than what it finds here. -/
def Located.wrongType (expected : String) : Located → Problem
  | .broken fault _ => fault.problem
  | .scalar value _ stop => ⟨.wrongType (.scalar value) expected, stop⟩
  | .list start _ => ⟨.wrongType .list expected, start⟩
  | .object start _ => ⟨.wrongType .object expected, start⟩

/-! ### A tree without places gives its value back -/

mutual

@[simp] theorem Located.json_ofJson (j : Json) : (Located.ofJson j).json = .ok j := by
  cases j with
  | arr items => simp [Located.ofJson, Located.json, Items.json_ofJson, Except.map]
  | obj members => simp [Located.ofJson, Located.json, Members.json_ofJson, Except.map]
  | _ => simp [Located.ofJson, Located.json, Scalar.json]

theorem Items.json_ofJson (n : Nat) (items : List Json) :
    (Items.ofJson n items).json = .ok items := by
  cases items with
  | nil => simp [Items.ofJson, Items.json]
  | cons item rest =>
    simp [Items.ofJson, Items.json, Located.json_ofJson item, Items.json_ofJson n rest, Except.map]

theorem Members.json_ofJson (members : List (String × Json)) :
    (Members.ofJson members).json = .ok members := by
  cases members with
  | nil => simp [Members.ofJson, Members.json]
  | cons entry rest =>
    obtain ⟨name, value⟩ := entry
    simp [Members.ofJson, Members.json, Located.json_ofJson value, Members.json_ofJson rest,
      Except.map]

end

end DatalogClient
