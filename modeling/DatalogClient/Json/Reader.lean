import DatalogClient.Json.Decode
import DatalogClient.Json.Lexeme

/-!
# JSON from text

A text is read into a `Located` tree. Reading never fails as a whole: where the text breaks a rule
the tree holds the fault. After a fault inside a member's value reading goes on behind that value
if the value can at least be passed over, since a decoder may not want it.

Containers nest up to a limit that the caller sets. A fault leaves every container around it as
soon as its end, or the comma after the faulty item, has been taken; this decides the place of
problems that cover up a fault.

## Main definitions

* `skipValue` — pass over a value
* `readValue` — the tree of a value
* `LocatedText.ofText` — the tree of a whole text, and what follows it
-/

namespace DatalogClient.Json

/-! ### Passing over a value -/

/-- The two kinds of containers. -/
inductive Bracket where
  | list
  | object

/-- The character that ends a container. -/
def Bracket.close : Bracket → Char
  | list => ']'
  | object => '\x7d'

/-- The fault of a container that the text ends in. -/
def Bracket.endsFlaw : Bracket → Flaw
  | list => .listEnds
  | object => .objectEnds

/-- The fault of a container in which something other than a comma or the end follows. -/
def Bracket.separatorFlaw : Bracket → Flaw
  | list => .listSeparator
  | object => .objectSeparator

/-- What is passed over next: a value; what follows a value (`true`) or an opening bracket
(`false`); an item or a member. -/
inductive SkipStep where
  | value
  | after (commaAllowed : Bool)
  | entry

/-- Pass over values until the containers that are open (innermost first) have ended. The first
argument bounds the number of steps. -/
def skipSteps : Nat → SkipStep → List Bracket → Cursor → Except Stop Cursor
  | 0, _, _, c => .error (c.stop .valueEnds)
  | fuel + 1, .value, outer, c =>
    let c := c.skipBlank
    let scalar (r : Except Stop Cursor) : Except Stop Cursor :=
      match r with
      | .error e => .error e
      | .ok d => skipSteps fuel (.after true) outer d
    match c.rest with
    | [] => .error (c.stop .valueEnds)
    | ch :: _ =>
      if ch = 'n' then scalar (readWord ['u', 'l', 'l'] c.next)
      else if ch = 't' then scalar (readWord ['r', 'u', 'e'] c.next)
      else if ch = 'f' then scalar (readWord ['a', 'l', 's', 'e'] c.next)
      else if ch = '-' then scalar (skipNumber c.next)
      else if ch.isDigit then scalar (skipNumber c)
      else if ch = '"' then scalar (skipString c.next)
      else if ch = '[' then skipSteps fuel (.after false) (.list :: outer) c.next
      else if ch = '\x7b' then skipSteps fuel (.after false) (.object :: outer) c.next
      else .error (c.stopAhead .valueMissing)
  | _ + 1, .after _, [], c => .ok c
  | fuel + 1, .after commaAllowed, inner :: outer, c =>
    let c := c.skipBlank
    match c.rest with
    | [] => .error (c.stop inner.endsFlaw)
    | ch :: _ =>
      if ch = ',' && commaAllowed then skipSteps fuel .entry (inner :: outer) c.next
      else if ch = inner.close then skipSteps fuel (.after true) outer c.next
      else if commaAllowed then .error (c.stopAhead inner.separatorFlaw)
      else skipSteps fuel .entry (inner :: outer) c
  | fuel + 1, .entry, outer, c =>
    match outer with
    | .object :: _ =>
      let c := c.skipBlank
      match c.rest with
      | [] => .error (c.stop .objectEnds)
      | ch :: _ =>
        if ch = '"' then
          match skipString c.next with
          | .error e => .error e
          | .ok d =>
            let d := d.skipBlank
            match d.rest with
            | [] => .error (d.stop .objectEnds)
            | ':' :: _ => skipSteps fuel .value outer d.next
            | _ => .error (d.stopAhead .colonMissing)
        else .error (c.stopAhead .nameUnquoted)
    | _ => skipSteps fuel .value outer c

/-- Pass over a value. -/
def skipValue (c : Cursor) : Except Stop Cursor := skipSteps (4 * c.rest.length + 4) .value [] c

/-! ### Reading a value -/

/-- What has been read, and where readers stand then. -/
structure Reading (α : Type) where
  tree : α
  /-- Where a reader stands that keeps to what has been read, or that met the first fault. -/
  stop : Cursor
  /-- Where a reader stands that gets through, if one can. -/
  next : Option Cursor
  /-- There is no fault in what has been read. -/
  sound : Bool

/-- A reader gives up inside a list: it takes the end, or a comma and white space. -/
def leaveList (c : Cursor) : Cursor :=
  let c := c.skipBlank
  match c.rest with
  | ']' :: _ => c.next
  | ',' :: _ => c.next.skipBlank
  | _ => c

/-- A reader gives up inside an object: it takes the end. -/
def leaveObject (c : Cursor) : Cursor :=
  let c := c.skipBlank
  match c.rest with
  | '\x7d' :: _ => c.next
  | _ => c

/-- A value that cannot be read; where a name is wanted, the fault is the given one. -/
def brokenValue (s : Stop) (asName : Fault) : Reading Located :=
  ⟨.broken s.fault asName, s.cursor, none, false⟩

/-- A scalar that begins at `start`, or the fault that was met in it. A text that does not begin
with a quote is no name. -/
def scalarReading (start : Cursor) : Scan Scalar → Reading Located
  | .ok (value, c) => ⟨.scalar value (some start.place) (some c.place), c, some c, true⟩
  | .error s =>
    let asName := match start.rest with
      | '"' :: _ => s.fault
      | _ => (start.stopAhead .valueMissing).fault
    brokenValue s asName

/-- The list ends or breaks off here, for a reader that stands at `c`. -/
def brokenItems (s : Stop) (surplus : Fault) : Reading Items :=
  ⟨.broken s.fault surplus.problem, leaveList s.cursor, none, false⟩

/-- The object breaks off here. -/
def brokenMembers (s : Stop) (asName : Problem) : Reading Members :=
  ⟨.broken s.fault asName, leaveObject s.cursor, none, false⟩

mutual

/-- The value that comes next. The first argument bounds the number of steps, the second is how many
containers may still be opened. -/
def readValue : Nat → Nat → Cursor → Reading Located
  | 0, _, c => brokenValue (c.stop .valueEnds) ⟨.valueEnds, c.place⟩
  | fuel + 1, depth, c =>
    let c := c.skipBlank
    match c.rest with
    | [] => brokenValue (c.stop .valueEnds) ⟨.valueEnds, c.place⟩
    | ch :: _ =>
      let word (letters : List Char) (value : Scalar) :=
        scalarReading c ((readWord letters c.next).map fun d => (value, d))
      if ch = 'n' then word ['u', 'l', 'l'] .null
      else if ch = 't' then word ['r', 'u', 'e'] (.bool true)
      else if ch = 'f' then word ['a', 'l', 's', 'e'] (.bool false)
      else if ch = '-' then
        scalarReading c ((readNumber true c.next).map fun (n, d) => (.num n, d))
      else if ch.isDigit then
        scalarReading c ((readNumber false c).map fun (n, d) => (.num n, d))
      else if ch = '"' then
        scalarReading c ((readString c.next).map fun (s, d) => (.str s, d))
      else if ch = '[' then
        match depth with
        | 0 => brokenValue (c.stopAhead .nestedTooDeep) ⟨.valueMissing, c.ahead⟩
        | depth + 1 =>
          let r := readItems fuel depth true c.next
          ⟨.list (some c.place) r.tree, r.stop, r.next, r.sound⟩
      else if ch = '\x7b' then
        match depth with
        | 0 => brokenValue (c.stopAhead .nestedTooDeep) ⟨.nestedTooDeep, c.ahead⟩
        | depth + 1 =>
          let r := readMembers fuel depth true c.next
          ⟨.object (some c.place) r.tree, r.stop, r.next, r.sound⟩
      else brokenValue (c.stopAhead .valueMissing) ⟨.valueMissing, c.ahead⟩

/-- The rest of a list, at its first item or after an item. -/
def readItems : Nat → Nat → Bool → Cursor → Reading Items
  | 0, _, _, c => brokenItems (c.stop .listEnds) ⟨.listEnds, c.place⟩
  | fuel + 1, depth, first, c =>
    let c := c.skipBlank
    match c.rest with
    | [] => brokenItems (c.stop .listEnds) ⟨.listEnds, c.place⟩
    | ch :: _ =>
      if ch = ']' then ⟨.close (some c.next.place), c.next, some c.next, true⟩
      else if first then readItem fuel depth ⟨.textAfterEnd, c.ahead⟩ c
      else if ch = ',' then
        let d := c.next.skipBlank
        match d.rest with
        | [] => brokenItems (d.stop .valueEnds) ⟨.textAfterEnd, d.place⟩
        | ']' :: _ => brokenItems (d.stopAhead .commaBeforeEnd) ⟨.commaBeforeEnd, d.ahead⟩
        | _ => readItem fuel depth ⟨.textAfterEnd, d.ahead⟩ d
      else brokenItems (c.stopAhead .listSeparator) ⟨.textAfterEnd, c.ahead⟩

/-- An item and the rest of its list. -/
def readItem : Nat → Nat → Fault → Cursor → Reading Items
  | 0, _, _, c => brokenItems (c.stop .valueEnds) ⟨.valueEnds, c.place⟩
  | fuel + 1, depth, surplus, c =>
    let v := readValue fuel depth c
    let left := leaveList v.stop
    match v.next with
    | none =>
      ⟨.item surplus.problem v.tree (some left.place) (.close none), left, none, false⟩
    | some d =>
      let r := readItems fuel depth false d
      ⟨.item surplus.problem v.tree (some left.place) r.tree,
        if v.sound then r.stop else left, r.next, v.sound && r.sound⟩

/-- The rest of an object, at its first member or after a member. -/
def readMembers : Nat → Nat → Bool → Cursor → Reading Members
  | 0, _, _, c => brokenMembers (c.stop .objectEnds) (c.stop .objectEnds).fault.problem
  | fuel + 1, depth, first, c =>
    let c := c.skipBlank
    match c.rest with
    | [] => brokenMembers (c.stop .objectEnds) (c.stop .valueEnds).fault.problem
    | ch :: _ =>
      if ch = '\x7d' then ⟨.close (some c.next.place), c.next, some c.next, true⟩
      else if first then
        if ch = '"' then readMember fuel depth c
        else brokenMembers (c.stopAhead .nameUnquoted)
          ((readValue fuel depth c).tree.wrongType "variant identifier")
      else if ch = ',' then
        let d := c.next.skipBlank
        match d.rest with
        | [] => brokenMembers (d.stop .valueEnds) (d.stop .valueEnds).fault.problem
        | '"' :: _ => readMember fuel depth d
        | '\x7d' :: _ =>
          brokenMembers (d.stopAhead .commaBeforeEnd) (d.stopAhead .commaBeforeEnd).fault.problem
        | _ => brokenMembers (d.stopAhead .nameUnquoted) (d.stopAhead .nameUnquoted).fault.problem
      else brokenMembers (c.stopAhead .objectSeparator) (c.stopAhead .objectSeparator).fault.problem

/-- A member, from the opening quote of its name on, and the rest of its object. -/
def readMember : Nat → Nat → Cursor → Reading Members
  | 0, _, c => brokenMembers (c.stop .objectEnds) (c.stop .objectEnds).fault.problem
  | fuel + 1, depth, c =>
    match readString c.next with
    | .error s => brokenMembers s s.fault.problem
    | .ok (name, d) =>
      let nameLeave := some (leaveObject d).place
      let e := d.skipBlank
      let member := Members.member name (some d.place) nameLeave
      match e.rest with
      | ':' :: _ =>
        let v := readValue fuel depth e.next
        let left := leaveObject v.stop
        if v.sound then
          let r := readMembers fuel depth false v.stop
          ⟨member v.tree none (some left.place) r.tree, r.stop, r.next, r.sound⟩
        else
          match skipValue e.next with
          | .error s =>
            ⟨member v.tree (some s.fault) (some left.place) (.close none), left, none, false⟩
          | .ok f =>
            let r := readMembers fuel depth false f
            ⟨member v.tree none (some left.place) r.tree, left, r.next, false⟩
      | [] =>
        let s := e.stop .objectEnds
        ⟨member (.broken s.fault s.fault) (some s.fault) nameLeave (.close none), leaveObject e,
          none, false⟩
      | _ =>
        let s := e.stopAhead .colonMissing
        ⟨member (.broken s.fault s.fault) (some s.fault) nameLeave (.close none), leaveObject e,
          none, false⟩

end

/-! ### Whole texts -/

/-- How many containers of a text may stand inside one another. -/
def nestingLimit : Nat := 127

/-- A text: the tree of its value, and the fault of a reader that gets through the value and finds
more text. -/
structure LocatedText where
  root : Located
  surplus : Option Fault

/-- Read a text whose containers nest no deeper than the limit. -/
def LocatedText.ofText (limit : Nat) (text : String) : LocatedText :=
  let r := readValue (6 * text.length + 6) limit (Cursor.ofText text)
  let surplus := r.next.bind fun c =>
    let c := c.skipBlank
    if c.rest.isEmpty then none else some (c.stopAhead .textAfterEnd).fault
  ⟨r.tree, surplus⟩

/-- Decode a text as a whole. -/
def decodeText {α : Type} (decode : Decoder α) (text : String) :
    Except Problem α :=
  let t := LocatedText.ofText nestingLimit text
  match decode t.root with
  | .error p => .error p
  | .ok a =>
    match t.surplus with
    | some fault => .error fault.problem
    | none => .ok a

/-- The value of a text without repeated names. -/
def ofText (text : String) : Except Problem Json := decodeText anything text

end DatalogClient.Json
