import DatalogClient.Value.Basic

/-!
# Pull patterns

A pull pattern selects attributes of an entity. Beside names there are options for a single
attribute and map specs, which follow an attribute to further entities; map specs hold patterns
again, to any depth.

## Main definitions

* `AttrOption`, `RecursionLimit`, `MapKey` — the parts without patterns
* `AttrSpec`, `MapSpec`, `MapTarget` — one element of a pattern, and what it may hold
* `AttrSpec.nested`, `AttrSpec.recursive` and others — specs of common shapes
* `Pull` — a pattern with the entity that it is about
-/

namespace DatalogClient

/-- What is asked of one attribute. -/
inductive OptionKind where
  /-- It goes by another name. -/
  | renamed (name : String)
  /-- No more than so many values are wanted. -/
  | limit (count : UInt64)
  /-- It has a value even where the entity has none. -/
  | fallback (value : Value)

/-- The word for an option. -/
def OptionKind.label : OptionKind → String
  | renamed _ => "as"
  | limit _ => "limit"
  | fallback _ => "default"

/-- An attribute with an option. -/
structure AttrOption where
  attr : String
  kind : OptionKind

/-- How often an attribute is followed. -/
inductive RecursionLimit where
  | depth (count : UInt64)
  | unbounded
deriving DecidableEq

/-- The attribute that a selector is about. -/
inductive MapKey where
  | attr (name : String)
  | option (option : AttrOption)

/-- The name of the attribute. -/
def MapKey.name : MapKey → String
  | attr name => name
  | option o => o.attr

mutual

/-- One element of a pattern. -/
inductive AttrSpec where
  | name (attr : String)
  | wildcard
  | option (option : AttrOption)
  | map (spec : MapSpec)

/-- Attributes that are followed. -/
inductive MapSpec where
  /-- Attributes, each with what is wanted behind it, in the order written. -/
  | attrs (entries : List (String × MapTarget))
  /-- One attribute and a pattern for what is behind it. -/
  | keyed (key : MapKey) (selector : List AttrSpec)

/-- What is wanted behind an attribute: a pattern, or the same again. -/
inductive MapTarget where
  | pattern (specs : List AttrSpec)
  | recursion (limit : RecursionLimit)

end

/-- The attribute spec of a text; the asterisk stands for every attribute. -/
def AttrSpec.ofText (text : String) : AttrSpec := if text = "*" then .wildcard else .name text

namespace AttrSpec

/-- An attribute under another name. -/
def renamed (attr name : String) : AttrSpec := .option ⟨attr, .renamed name⟩

/-- An attribute with no more than so many values. -/
def limit (attr : String) (count : UInt64) : AttrSpec := .option ⟨attr, .limit count⟩

/-- An attribute with a value for entities that have none. -/
def withDefault (attr : String) (value : Value) : AttrSpec := .option ⟨attr, .fallback value⟩

/-- A pattern behind an attribute. -/
def nested (attr : String) (pattern : List AttrSpec) : AttrSpec :=
  .map (.attrs [(attr, .pattern pattern)])

/-- An attribute that is followed again and again. -/
def recursive (attr : String) (limit : RecursionLimit) : AttrSpec :=
  .map (.attrs [(attr, .recursion limit)])

/-- A pattern behind the attribute of a key. -/
def keyed (key : MapKey) (selector : List AttrSpec) : AttrSpec := .map (.keyed key selector)

end AttrSpec

/-- A pattern and the variable of the entity that it is about. -/
structure Pull where
  pattern : List AttrSpec
  entity : String

/-! ### Equality -/

/-- Equality of options. -/
def OptionKind.same : OptionKind → OptionKind → Bool
  | renamed a, renamed b => a == b
  | limit a, limit b => a == b
  | fallback a, fallback b => a == b
  | _, _ => false

/-- Equality of attributes with options. -/
def AttrOption.same (a b : AttrOption) : Bool := a.attr == b.attr && a.kind.same b.kind

/-- Equality of keys. -/
def MapKey.same : MapKey → MapKey → Bool
  | attr a, attr b => a == b
  | option a, option b => a.same b
  | _, _ => false

mutual

/-- Equality of specs. -/
def AttrSpec.same : AttrSpec → AttrSpec → Bool
  | .name a, .name b => a == b
  | .wildcard, .wildcard => true
  | .option a, .option b => a.same b
  | .map a, .map b => a.same b
  | _, _ => false

/-- Equality of map specs. -/
def MapSpec.same : MapSpec → MapSpec → Bool
  | .attrs a, .attrs b => MapSpec.sameEntries a b
  | .keyed k a, .keyed l b => k.same l && AttrSpec.samePattern a b
  | _, _ => false

/-- Equality of entries. -/
def MapSpec.sameEntries : List (String × MapTarget) → List (String × MapTarget) → Bool
  | [], [] => true
  | (m, a) :: as, (n, b) :: bs => m == n && a.same b && MapSpec.sameEntries as bs
  | _, _ => false

/-- Equality of targets. -/
def MapTarget.same : MapTarget → MapTarget → Bool
  | .pattern a, .pattern b => AttrSpec.samePattern a b
  | .recursion a, .recursion b => a == b
  | _, _ => false

/-- Equality of patterns. -/
def AttrSpec.samePattern : List AttrSpec → List AttrSpec → Bool
  | [], [] => true
  | a :: as, b :: bs => a.same b && AttrSpec.samePattern as bs
  | _, _ => false

end

/-- Equality of pulls. -/
def Pull.same (a b : Pull) : Bool :=
  AttrSpec.samePattern a.pattern b.pattern && a.entity == b.entity

end DatalogClient
