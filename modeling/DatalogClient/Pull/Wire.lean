import DatalogClient.Pull.Basic
import DatalogClient.Value.Shown
import DatalogClient.Value.Wire

/-!
# Pull patterns on the wire

Elements of a pattern are told apart by their JSON type: a text is a name, a list an option, an
object a map spec. An object of exactly the two members `key` and `selector` is a selector with its
key; any other one names attributes.

The entries of a map spec are kept even if a name repeats. Below a map spec, however, a repeated
name counts only once, with its last value.

## Main definitions

* `AttrSpec.toJson`, `MapSpec.toJson`, `Pull.toJson` — the wire forms
* `AttrSpec.read`, `MapTarget.read` — the specs of wire forms
* `AttrSpec.decode`, `MapSpec.decode`, `Pull.decode` and others — the decoders
-/

namespace DatalogClient

/-- How an unbounded recursion is written. -/
def RecursionLimit.unboundedMark : String := "..."

/-- The argument of an option. -/
def OptionKind.argument : OptionKind → Json
  | renamed name => .str name
  | limit count => .int count.toNat
  | fallback value => value.toJson

/-- An option is a list of attribute, word and argument. -/
def AttrOption.toJson (o : AttrOption) : Json :=
  .arr [.str o.attr, .str o.kind.label, o.kind.argument]

/-- A limit is a number or a mark. -/
def RecursionLimit.toJson : RecursionLimit → Json
  | depth count => .int count.toNat
  | unbounded => .str unboundedMark

/-- A key is a name or an option. -/
def MapKey.toJson : MapKey → Json
  | attr name => .str name
  | option o => o.toJson

mutual

/-- The wire form of a spec. -/
def AttrSpec.toJson : AttrSpec → Json
  | .name attr => .str attr
  | .wildcard => .str "*"
  | .option o => o.toJson
  | .map spec => spec.toJson

/-- The wire form of a map spec. -/
def MapSpec.toJson : MapSpec → Json
  | .attrs entries => .obj (MapSpec.entriesToJson entries)
  | .keyed key selector =>
    .obj [("key", key.toJson), ("selector", .arr (AttrSpec.patternToJson selector))]

/-- The wire forms of entries. -/
def MapSpec.entriesToJson : List (String × MapTarget) → List (String × Json)
  | [] => []
  | (name, target) :: rest => (name, target.toJson) :: MapSpec.entriesToJson rest

/-- The wire form of a target. -/
def MapTarget.toJson : MapTarget → Json
  | .pattern specs => .arr (AttrSpec.patternToJson specs)
  | .recursion limit => limit.toJson

/-- The wire forms of a pattern. -/
def AttrSpec.patternToJson : List AttrSpec → List Json
  | [] => []
  | spec :: rest => spec.toJson :: AttrSpec.patternToJson rest

end

/-- A pull is an object of pattern and entity. -/
def Pull.toJson (p : Pull) : Json :=
  .obj [("pull", .arr (AttrSpec.patternToJson p.pattern)), ("entity", .str p.entity)]

/-! ### Reading -/

/-- The option of a word and its argument, or why there is none. -/
def OptionKind.of (label : String) (argument : Value) : Except String OptionKind :=
  match label, argument with
  | "as", .text name => .ok (.renamed name)
  | "limit", .int n =>
    if n < 0 then .error "pull limit must not be negative" else .ok (.limit n.toUInt64)
  | "default", value => .ok (.fallback value)
  | _, _ =>
    .error ("invalid attribute option '" ++ label ++ "' with argument " ++ argument.shown)

/-- The option of a list. -/
def AttrOption.ofItems? : List Json → Option AttrOption
  | [.str attr, .str label, argument] =>
    match Value.ofJson? argument with
    | none => none
    | some value =>
      match OptionKind.of label value with
      | .ok kind => some ⟨attr, kind⟩
      | .error _ => none
  | _ => none

/-- The key of a wire form. -/
def MapKey.ofJson? : Json → Option MapKey
  | .str name => some (.attr name)
  | .arr items => (AttrOption.ofItems? items).map .option
  | _ => none

/-- The limit of a wire form. -/
def RecursionLimit.ofJson? : Json → Option RecursionLimit
  | .num (.int n) => if n < 0 then none else some (.depth n.toNat.toUInt64)
  | .str s => if s = unboundedMark then some .unbounded else none
  | _ => none

namespace MapSpec

/-- The names are those of a selector with its key. -/
def isKeyed (names : List String) : Bool :=
  names.length == 2 && names.contains "key" && names.contains "selector"

/-- Every entry has a target. -/
def allTargets : List (String × Option MapTarget) → Option (List (String × MapTarget))
  | [] => some []
  | (_, none) :: _ => none
  | (name, some target) :: rest => (allTargets rest).map ((name, target) :: ·)

/-- The map spec of members whose values have been read as targets. -/
def assemble (members : List (String × Json)) (targets : List (String × Option MapTarget)) :
    Option MapSpec :=
  if isKeyed (members.map (·.1)) then
    match Json.lookup "key" members, Json.lookup "selector" targets with
    | some key, some (some (.pattern selector)) =>
      (MapKey.ofJson? key.collapse).map fun key => .keyed key selector
    | _, _ => none
  else (allTargets targets).map .attrs

end MapSpec

mutual

/-- The spec of a wire form. Repeated names count once if `once` says so, and in any case below a
map spec. -/
def AttrSpec.read (once : Bool) : Json → Option AttrSpec
  | .str s => some (AttrSpec.ofText s)
  | .arr items =>
    (AttrOption.ofItems? (if once then Json.collapseItems items else items)).map .option
  | .obj members =>
    let targets := MapSpec.readTargets members
    (if once then MapSpec.assemble (Json.latest members) (Json.latest targets)
      else MapSpec.assemble members targets).map .map
  | _ => none

/-- The target of a wire form. -/
def MapTarget.read (once : Bool) : Json → Option MapTarget
  | .arr items => (AttrSpec.readPattern once items).map .pattern
  | .num n => (RecursionLimit.ofJson? (.num n)).map .recursion
  | .str s => (RecursionLimit.ofJson? (.str s)).map .recursion
  | _ => none

/-- The targets of members, where they have one. -/
def MapSpec.readTargets : List (String × Json) → List (String × Option MapTarget)
  | [] => []
  | (name, value) :: rest => (name, MapTarget.read true value) :: MapSpec.readTargets rest

/-- The pattern of wire forms. -/
def AttrSpec.readPattern (once : Bool) : List Json → Option (List AttrSpec)
  | [] => some []
  | item :: rest =>
    match AttrSpec.read once item with
    | none => none
    | some spec => (AttrSpec.readPattern once rest).map (spec :: ·)

end

/-! ### Decoders -/

/-- The decoder of specs. -/
def AttrSpec.decode : Decoder AttrSpec := Json.inSomeForm "AttrSpecWire" (AttrSpec.read false)

/-- The decoder of targets. -/
def MapTarget.decode : Decoder MapTarget := Json.inSomeForm "MapTarget" (MapTarget.read false)

/-- The decoder of keys. -/
def MapKey.decode : Decoder MapKey := Json.inSomeForm "MapKey" MapKey.ofJson?

/-- A number that is no negative integer, or a text. -/
def RecursionLimit.scalarOf? : Json → Option (Nat ⊕ String)
  | .num (.int n) => if n < 0 then none else some (.inl n.toNat)
  | .str s => some (.inr s)
  | _ => none

/-- The decoder of limits. -/
def RecursionLimit.decode : Decoder RecursionLimit := fun t =>
  match Json.inSomeForm "RecursionLimitWire" scalarOf? t with
  | .error p => .error p
  | .ok (.inl n) => .ok (.depth n.toUInt64)
  | .ok (.inr s) =>
    if s = unboundedMark then .ok .unbounded
    else .error ⟨.refused ("recursion limit must be a number or '" ++ unboundedMark ++
      "', found '" ++ s ++ "'"), none⟩

namespace AttrOption

/-- How messages call the list of an option. -/
def title : String := "a tuple of size 3"

/-- The next of the three items of an option, of which so many came before. -/
def decodeNext {α : Type} (decode : Decoder α) (n : Nat) : Items → Except Problem (α × Items)
  | .close stop => .error ⟨.wrongLength n title, stop⟩
  | .broken fault _ => .error fault.problem
  | .item _ value leave rest =>
    match decode value with
    | .error p => .error (p.at? leave)
    | .ok a => .ok (a, rest)

/-- The list ends here. -/
def decodeEnd : Items → Except Problem Unit
  | .close _ => .ok ()
  | .broken _ surplus => .error surplus
  | .item surplus _ _ _ => .error surplus

/-- The decoder of options. -/
def decode : Decoder AttrOption
  | .list _ items => do
    let (attr, items) ← decodeNext Json.text 0 items
    let (label, items) ← decodeNext Json.text 1 items
    let (argument, items) ← decodeNext Value.decode 2 items
    decodeEnd items
    match OptionKind.of label argument with
    | .ok kind => .ok ⟨attr, kind⟩
    | .error reason => .error ⟨.refused reason, none⟩
  | other => .error (other.wrongType title)

end AttrOption

namespace MapSpec

/-- The members from here on with their values read as a whole, and the place after the object. -/
def decodeMembers : Members → Except Problem (List (String × Json) × Option Place)
  | .close stop => .ok ([], stop)
  | .broken fault _ => .error fault.problem
  | .member name _ _ value _ leave rest =>
    match Json.whole value with
    | .error p => .error (p.at? leave)
    | .ok j => (decodeMembers rest).map fun (members, stop) => ((name, j.collapse) :: members, stop)

/-- The selector and its key, in the order written. -/
def decodeKeyed (key : Option MapKey) (selector : Option (List AttrSpec)) :
    List (String × Json) → Except Problem MapSpec
  | [] =>
    match key, selector with
    | some key, some selector => .ok (.keyed key selector)
    | _, _ => .error ⟨.refused "key selector requires 'key' and 'selector'", none⟩
  | (name, value) :: rest =>
    if name = "key" then
      match MapKey.decode (.ofJson value) with
      | .error p => .error p
      | .ok key => decodeKeyed (some key) selector rest
    else
      match Json.each AttrSpec.decode (.ofJson value) with
      | .error p => .error p
      | .ok selector => decodeKeyed key (some selector) rest

/-- Attributes with their targets. -/
def decodeEntries : List (String × Json) → Except Problem (List (String × MapTarget))
  | [] => .ok []
  | (name, value) :: rest =>
    match MapTarget.decode (.ofJson value) with
    | .error p => .error p
    | .ok target => (decodeEntries rest).map ((name, target) :: ·)

/-- The map spec of members. -/
def ofMembers (members : List (String × Json)) : Except Problem MapSpec :=
  if isKeyed (members.map (·.1)) then decodeKeyed none none members
  else (decodeEntries members).map .attrs

/-- The decoder of map specs. -/
def decode : Decoder MapSpec
  | .object _ members =>
    match decodeMembers members with
    | .error p => .error p
    | .ok (members, stop) => (ofMembers members).mapError fun p => p.at? stop
  | other => .error (other.wrongType "a pull map spec")

end MapSpec

namespace Pull

/-- What has been read of a pull. -/
structure Draft where
  pattern : Option (List AttrSpec) := none
  entity : Option String := none

/-- The record of a pull. -/
def record : Json.Record Draft Pull where
  title := "struct PullExpr"
  strict := false
  fields :=
    [.of "pull" true (Json.each AttrSpec.decode) Draft.pattern fun a d => { d with pattern := a },
     .of "entity" true Json.text Draft.entity fun a d => { d with entity := a }]
  blank := {}
  build d := do
    let pattern ← Json.need "pull" d.pattern
    let entity ← Json.need "entity" d.entity
    return ⟨pattern, entity⟩

/-- The decoder of pulls. -/
def decode : Decoder Pull := record.decode

end Pull

end DatalogClient
