import DatalogClient.Proofs.Document.Literals

/-!
# Patterns that are read at all

What is written of a pattern need not be read back as the pattern, but it is to be read as some
pattern. It is, unless an option has a limit beyond the signed words, or a map spec has entries of
the names of a selector with its key that are neither. A number that is not finite is written as
null, which no literal is read from.

## Main definitions

* `Value.Finite` — every number in the literal is finite
* `MapTarget.PassesForKey` — what is written behind an attribute looks like a key
* `AttrSpec.Readable` — specs whose wire form is read as some spec

## Main results

* `Value.exists_ofJson?_toJson_iff` — a literal is read as some literal exactly if it is finite
* `AttrSpec.exists_read_toJson_iff` — a spec is read as some spec exactly if it is readable
* `Pull.exists_reads_toJson_iff` — the same of pulls
-/

namespace DatalogClient

open Json (Reads)

/-- A list corresponds to some other one if each of its items corresponds to something. -/
theorem exists_forall₂_iff {α β : Type} {R : α → β → Prop} {items : List α} :
    (∃ values, List.Forall₂ R items values) ↔ ∀ item ∈ items, ∃ value, R item value := by
  induction items with
  | nil => simp
  | cons item rest ih =>
    rw [List.forall_mem_cons, ← ih]
    constructor
    · rintro ⟨values, hvalues⟩
      obtain ⟨value, others, hvalue, hothers, -⟩ := List.forall₂_cons_left_iff.mp hvalues
      exact ⟨⟨value, hvalue⟩, others, hothers⟩
    · rintro ⟨⟨value, hvalue⟩, others, hothers⟩
      exact ⟨value :: others, .cons hvalue hothers⟩

/-- Written items are read as some list if each of them is read as something. -/
theorem Json.exists_reads_each_map_iff {α β : Type} {decode : Decoder β} {write : α → Json}
    {items : List α} :
    (∃ values, Reads (each decode) (.arr (items.map write)) values) ↔
      ∀ item ∈ items, ∃ value, Reads decode (write item) value := by
  simp only [reads_each_iff, arr.injEq, exists_eq_left']
  rw [exists_forall₂_iff, List.forall_mem_map]

theorem exists_map_eq_some_iff {α β : Type} {f : α → β} {o : Option α} :
    (∃ b, o.map f = some b) ↔ ∃ a, o = some a := by
  cases o <;> simp

/-! ### Literals -/

namespace Value

/-- A number is finite. -/
def FiniteHere : Value → Prop
  | .float x => x.isFinite = true
  | _ => True

/-- Every number in the literal is finite. -/
def Finite (v : Value) : Prop := v.Every FiniteHere

@[simp] theorem finite_list (items : List Value) :
    (Value.list items).Finite ↔ ∀ item ∈ items, item.Finite := by
  simp [Finite, FiniteHere]

theorem exists_listOfJson?_iff {items : List Json} :
    (∃ values, listOfJson? items = some values) ↔ ∀ item ∈ items, ∃ v, ofJson? item = some v := by
  simp only [listOfJson?_eq_some_iff]
  exact exists_forall₂_iff

/-- The items of a list that passes for a typed text are finite. -/
theorem finite_of_isPair {items : List Value} (h : isPair marksKind items = true) :
    ∀ item ∈ items, item.Finite := by
  match items, h with
  | [head, .text s], h =>
    have hhead : head.Finite := by
      cases head with
      | float x => cases h
      | list inner => cases h
      | bool _ | int _ | text _ | typed _ => trivial
    simp only [List.forall_mem_cons, List.not_mem_nil, false_imp_iff, implies_true, and_true]
    exact ⟨hhead, trivial⟩

/-- The wire form of a literal is read as some literal exactly if its numbers are finite. -/
theorem exists_ofJson?_toJson_iff (v : Value) :
    (∃ read, ofJson? v.toJson = some read) ↔ v.Finite := by
  induction v using nestedInduction with
  | bool b => exact iff_of_true ⟨_, rfl⟩ trivial
  | int n => exact iff_of_true ⟨_, rfl⟩ trivial
  | text s => exact iff_of_true ⟨_, rfl⟩ trivial
  | typed t => exact iff_of_true ⟨_, (ofJson?_toJson_iff (.typed t)).mpr trivial⟩ trivial
  | float x =>
    rw [toJson]
    split_ifs with hx
    · exact iff_of_true ⟨_, rfl⟩ hx
    · exact iff_of_false (by simp [ofJson?]) hx
  | list items ih =>
    rw [toJson, listToJson_eq_map, ofJson?, finite_list]
    have hpair := isSome_ofItems?_toJson items
    cases htyped : TypedText.ofItems? (items.map toJson) with
    | some t =>
      -- The list passes for a typed text, which has no number in it.
      rw [htyped, Option.isSome_some] at hpair
      exact iff_of_true ⟨_, rfl⟩ (finite_of_isPair hpair.symm)
    | none =>
      have hitems : (∃ values, listOfJson? (items.map toJson) = some values) ↔
          ∀ item ∈ items, item.Finite := by
        rw [exists_listOfJson?_iff, List.forall_mem_map]
        exact forall₂_congr ih
      rw [← hitems]
      exact exists_map_eq_some_iff

end Value

/-! ### Options and keys -/

namespace OptionKind

/-- A limit fits a signed word, and a default is finite. -/
def Readable : OptionKind → Prop
  | renamed _ => True
  | limit count => (count.toNat : Int) ≤ Int64.maxValue.toInt
  | fallback value => value.Finite

theorem exists_of_argument_iff (kind : OptionKind) :
    (∃ value read, Value.ofJson? kind.argument = some value ∧ of kind.label value = .ok read) ↔
      kind.Readable := by
  cases kind with
  | renamed name => exact iff_of_true ⟨.text name, .renamed name, rfl, rfl⟩ trivial
  | limit count =>
    rw [Readable]
    constructor
    · rintro ⟨value, read, hvalue, hread⟩
      -- A limit beyond the signed words is read as a floating-point number, which is no limit.
      by_contra hgreat
      rw [argument, Json.int, Value.ofJson?, Value.ofInt, if_neg fun hrange => hgreat hrange.2,
        Option.some_inj] at hvalue
      rw [← hvalue, label, of_eq_ok_iff] at hread
      simp at hread
    · intro hfits
      obtain ⟨value, hvalue, hkind⟩ := (of_argument_iff (.limit count)).mpr hfits
      exact ⟨value, _, hvalue, hkind⟩
  | fallback value =>
    rw [Readable, ← Value.exists_ofJson?_toJson_iff, argument, label]
    constructor
    · rintro ⟨value, -, hvalue, -⟩
      exact ⟨value, hvalue⟩
    · rintro ⟨value, hvalue⟩
      exact ⟨value, _, hvalue, of_default value⟩

end OptionKind

namespace AttrOption

theorem exists_ofItems?_toJson_iff (o : AttrOption) :
    (∃ read, ofItems? [.str o.attr, .str o.kind.label, o.kind.argument] = some read) ↔
      o.kind.Readable := by
  rw [← OptionKind.exists_of_argument_iff]
  simp only [ofItems?_eq_some_iff]
  constructor
  · rintro ⟨read, label, argument, hitems, value, hvalue, hkind⟩
    simp only [List.cons.injEq, Json.str.injEq, and_true] at hitems
    obtain ⟨-, rfl, rfl⟩ := hitems
    exact ⟨value, _, hvalue, hkind⟩
  · rintro ⟨value, kind, hvalue, hkind⟩
    exact ⟨⟨o.attr, kind⟩, _, _, rfl, value, hvalue, hkind⟩

end AttrOption

namespace MapKey

/-- The option of a key is readable. -/
def Readable : MapKey → Prop
  | attr _ => True
  | option o => o.kind.Readable

theorem exists_ofJson?_toJson_iff (key : MapKey) :
    (∃ read, ofJson? key.toJson = some read) ↔ key.Readable := by
  cases key with
  | attr name => exact iff_of_true ⟨_, rfl⟩ trivial
  | option o =>
    rw [Readable, ← o.exists_ofItems?_toJson_iff, toJson, AttrOption.toJson, ofJson?]
    exact exists_map_eq_some_iff

end MapKey

/-! ### What passes for a key -/

namespace AttrSpec

/-- The text of a spec that is written as one. -/
def text? : AttrSpec → Option String
  | .name attr => some attr
  | .wildcard => some "*"
  | .option _ => none
  | .map _ => none

theorem collapse_toJson_eq_str_iff {s : AttrSpec} {text : String} :
    s.toJson.collapse = .str text ↔ s.text? = some text := by
  cases s with
  | name attr => simp [toJson, Json.collapse, text?]
  | wildcard => simp [toJson, Json.collapse, text?]
  | option o => simp [toJson, AttrOption.toJson, Json.collapse, text?]
  | map spec => cases spec <;> simp [toJson, MapSpec.toJson, Json.collapse, text?]

/-- A literal is read from what is written of the spec: it is a text, or an option whose literal is
finite. -/
def PassesForLiteral : AttrSpec → Prop
  | .name _ => True
  | .wildcard => True
  | .option o => o.kind.EveryLiteral Value.Finite
  | .map _ => False

end AttrSpec

theorem OptionKind.exists_ofJson?_argument_iff (kind : OptionKind) :
    (∃ v, Value.ofJson? kind.argument = some v) ↔ kind.EveryLiteral Value.Finite := by
  cases kind with
  | renamed name => exact iff_of_true ⟨_, rfl⟩ trivial
  | limit count => exact iff_of_true ⟨_, rfl⟩ trivial
  | fallback value => exact value.exists_ofJson?_toJson_iff

/-- An object whose members name no kind is no typed text. -/
theorem TypedText.ofMembers?_eq_none {members : List (String × Json)}
    (h : ∀ member ∈ members, kindOf? member.2 = none) : ofMembers? members = none := by
  rw [ofMembers?.eq_def]
  split
  · rename_i tag text htag _
    have hmem : tag ∈ valuesOf "type" members := by simp [htag]
    obtain ⟨member, hmember, rfl⟩ := List.mem_map.mp hmem
    rw [h member (List.mem_of_mem_filter hmember), Option.map_none]
  · rfl

/-- What is written behind attributes names no kind of typed texts. -/
theorem MapTarget.kindOf?_collapse_toJson (target : MapTarget) :
    TypedText.kindOf? target.toJson.collapse = none := by
  cases target with
  | pattern specs => rfl
  | recursion limit => cases limit <;> rfl

namespace AttrSpec

theorem exists_ofJson?_iff (s : AttrSpec) :
    (∃ v, Value.ofJson? s.toJson.collapse = some v) ↔ s.PassesForLiteral := by
  cases s with
  | name attr => exact iff_of_true ⟨_, rfl⟩ trivial
  | wildcard => exact iff_of_true ⟨_, rfl⟩ trivial
  | option o =>
    rw [PassesForLiteral, ← OptionKind.exists_ofJson?_argument_iff, toJson,
      Json.collapse_eq_self o.distinct_toJson, AttrOption.toJson, Value.ofJson?]
    have hitems : TypedText.ofItems? [.str o.attr, .str o.kind.label, o.kind.argument] = none := rfl
    have hlist : (∃ values, Value.listOfJson? [.str o.attr, .str o.kind.label, o.kind.argument] =
        some values) ↔ ∃ v, Value.ofJson? o.kind.argument = some v := by
      rw [Value.exists_listOfJson?_iff]
      simp [Value.ofJson?]
    rw [hitems, ← hlist]
    exact exists_map_eq_some_iff
  | map spec =>
    -- An object is read as a typed text only, and none of its members names a kind.
    rw [PassesForLiteral, iff_false, not_exists]
    cases spec with
    | attrs entries =>
      have hmembers : ∀ member ∈
          Json.latest (entries.map fun entry => (entry.1, entry.2.toJson.collapse)),
          TypedText.kindOf? member.2 = none := by
        intro member hmember
        obtain ⟨entry, -, rfl⟩ := List.mem_map.mp (Json.mem_of_mem_latest hmember)
        exact entry.2.kindOf?_collapse_toJson
      simp [collapse_attrs, Value.ofJson?, TypedText.ofMembers?_eq_none hmembers]
    | keyed key selector =>
      have hmembers : TypedText.ofMembers? [("key", key.toJson),
          ("selector", (MapTarget.pattern selector).toJson.collapse)] = none := rfl
      simp [collapse_keyed, Value.ofJson?, hmembers]

/-- No number is written of a spec, so none is read as a literal. -/
theorem ofJson?_ne_int (s : AttrSpec) (n : Int64) :
    Value.ofJson? s.toJson.collapse ≠ some (.int n) := by
  cases s with
  | name attr => simp [toJson, Json.collapse, Value.ofJson?]
  | wildcard => simp [toJson, Json.collapse, Value.ofJson?]
  | option o =>
    rw [toJson, AttrOption.toJson, Json.collapse, Value.ofJson?]
    split <;> simp
  | map spec => cases spec <;> simp [toJson, MapSpec.toJson, Json.collapse, Value.ofJson?]

/-- What is written of the specs looks like an option with a name or with a default. -/
def PassForOption (specs : List AttrSpec) : Prop :=
  ∃ attr label argument : AttrSpec, specs = [attr, label, argument] ∧ attr.text?.isSome ∧
    ((label.text? = some "as" ∧ argument.text?.isSome) ∨
      (label.text? = some "default" ∧ argument.PassesForLiteral))

theorem exists_ofItems?_map_toJson_iff (specs : List AttrSpec) :
    (∃ o, AttrOption.ofItems? (specs.map fun s => s.toJson.collapse) = some o) ↔
      PassForOption specs := by
  simp only [AttrOption.ofItems?_eq_some_iff, PassForOption, Option.isSome_iff_exists,
    ← collapse_toJson_eq_str_iff]
  constructor
  · rintro ⟨o, label, argument, hitems, value, hvalue, hkind⟩
    obtain ⟨a, rest, rfl, hattr, hrest⟩ := List.map_eq_cons_iff.mp hitems
    obtain ⟨l, others, rfl, hlabel, hothers⟩ := List.map_eq_cons_iff.mp hrest
    obtain ⟨x, none, rfl, rfl, hnone⟩ := List.map_eq_cons_iff.mp hothers
    obtain rfl := List.map_eq_nil_iff.mp hnone
    refine ⟨a, l, x, rfl, ⟨_, hattr⟩, ?_⟩
    rcases OptionKind.of_eq_ok_iff.mp hkind with
      ⟨rfl, name, rfl, -⟩ | ⟨rfl, n, rfl, -⟩ | ⟨rfl, -⟩
    · exact .inl ⟨hlabel, name, Value.ofJson?_eq_text_iff.mp hvalue⟩
    · -- A limit would have to be a number.
      exact absurd hvalue (x.ofJson?_ne_int n)
    · exact .inr ⟨hlabel, x.exists_ofJson?_iff.mp ⟨value, hvalue⟩⟩
  · rintro ⟨a, l, x, rfl, ⟨attr, hattr⟩, ⟨hlabel, name, hname⟩ | ⟨hlabel, hliteral⟩⟩
    · refine ⟨⟨attr, .renamed name⟩, "as", .str name, ?_, .text name, rfl, rfl⟩
      rw [List.map_cons, List.map_cons, List.map_singleton, hattr, hlabel, hname]
    · obtain ⟨value, hvalue⟩ := x.exists_ofJson?_iff.mpr hliteral
      refine ⟨⟨attr, .fallback value⟩, "default", x.toJson.collapse, ?_, value, hvalue,
        OptionKind.of_default value⟩
      rw [List.map_cons, List.map_cons, List.map_singleton, hattr, hlabel]

end AttrSpec

namespace MapTarget

theorem collapse_pattern (specs : List AttrSpec) :
    (pattern specs).toJson.collapse = .arr (specs.map fun s => s.toJson.collapse) := by
  rw [toJson, AttrSpec.patternToJson_eq_map, Json.collapse, Json.collapseItems_eq_map,
    List.map_map]
  rfl

/-- What is written of the target is read as a key: it is the mark of recursions without a limit,
or a pattern that looks like an option. -/
def PassesForKey : MapTarget → Prop
  | .recursion limit => limit = .unbounded
  | .pattern specs => AttrSpec.PassForOption specs

theorem exists_ofJson?_iff (target : MapTarget) :
    (∃ key, MapKey.ofJson? target.toJson.collapse = some key) ↔ target.PassesForKey := by
  cases target with
  | recursion limit =>
    cases limit with
    | depth count =>
      refine iff_of_false ?_ nofun
      simp [toJson, RecursionLimit.toJson, Json.int, Json.collapse, MapKey.ofJson?]
    | unbounded => exact iff_of_true ⟨_, rfl⟩ rfl
  | pattern specs =>
    rw [PassesForKey, ← AttrSpec.exists_ofItems?_map_toJson_iff, collapse_pattern, MapKey.ofJson?]
    exact exists_map_eq_some_iff

end MapTarget

/-! ### Specs -/

/-- Options and keys can be read, and so can all specs inside, as far as entries are not written
over by later ones of their names. If the names of the entries that are left are those of a selector
with its key, the entries pass for these. -/
inductive AttrSpec.Readable : AttrSpec → Prop
  | name (attr : String) : Readable (.name attr)
  | wildcard : Readable .wildcard
  | option {o : AttrOption} (hkind : o.kind.Readable) : Readable (.option o)
  | keyed {key : MapKey} {selector : List AttrSpec} (hkey : key.Readable)
      (hspecs : ∀ s ∈ selector, Readable s) : Readable (.map (.keyed key selector))
  | attrs {entries : List (String × MapTarget)}
      (hnames : ¬ ((Json.latest entries).map (·.1)).Perm ["key", "selector"])
      (hspecs : ∀ entry ∈ Json.latest entries, ∀ s ∈ entry.2.specs, Readable s) :
      Readable (.map (.attrs entries))
  | selector {entries : List (String × MapTarget)} {key : MapTarget} {specs : List AttrSpec}
      (hentries : (Json.latest entries).Perm [("key", key), ("selector", .pattern specs)])
      (hkey : key.PassesForKey) (hspecs : ∀ s ∈ specs, Readable s) :
      Readable (.map (.attrs entries))

namespace AttrSpec

theorem readable_option_iff {o : AttrOption} : (AttrSpec.option o).Readable ↔ o.kind.Readable := by
  constructor
  · intro h
    cases h with
    | option hkind => exact hkind
  · exact .option

theorem readable_keyed_iff {key : MapKey} {selector : List AttrSpec} :
    (AttrSpec.map (.keyed key selector)).Readable ↔
      key.Readable ∧ ∀ s ∈ selector, s.Readable := by
  constructor
  · intro h
    cases h with
    | keyed hkey hspecs => exact ⟨hkey, hspecs⟩
  · rintro ⟨hkey, hspecs⟩
    exact .keyed hkey hspecs

theorem readable_attrs_iff {entries : List (String × MapTarget)} :
    (AttrSpec.map (.attrs entries)).Readable ↔
      (¬ ((Json.latest entries).map (·.1)).Perm ["key", "selector"] ∧
        ∀ entry ∈ Json.latest entries, ∀ s ∈ entry.2.specs, s.Readable) ∨
      ∃ key specs, (Json.latest entries).Perm [("key", key), ("selector", .pattern specs)] ∧
        key.PassesForKey ∧ ∀ s ∈ specs, s.Readable := by
  constructor
  · intro h
    cases h with
    | attrs hnames hspecs => exact .inl ⟨hnames, hspecs⟩
    | selector hentries hkey hspecs => exact .inr ⟨_, _, hentries, hkey, hspecs⟩
  · rintro (⟨hnames, hspecs⟩ | ⟨key, specs, hentries, hkey, hspecs⟩)
    · exact .attrs hnames hspecs
    · exact .selector hentries hkey hspecs

end AttrSpec

namespace MapTarget

theorem exists_readPattern_iff (once : Bool) (specs : List AttrSpec) :
    (∃ read, AttrSpec.readPattern once (specs.map fun s => s.toJson.collapse) = some read) ↔
      ∀ s ∈ specs, ∃ read, AttrSpec.read once s.toJson.collapse = some read := by
  simp only [AttrSpec.readPattern_eq_some_iff]
  rw [exists_forall₂_iff, List.forall_mem_map]

/-- Every recursion is read, and a pattern is if each of its specs is. -/
theorem exists_read_toJson_iff (once : Bool) (target : MapTarget) :
    (∃ read, MapTarget.read once target.toJson.collapse = some read) ↔
      ∀ s ∈ target.specs, ∃ read, AttrSpec.read once s.toJson.collapse = some read := by
  cases target with
  | recursion limit =>
    have hread := (read_toJson_iff once (.recursion limit)).mpr (by simp [specs])
    exact iff_of_true ⟨_, hread⟩ (by simp [specs])
  | pattern specs =>
    rw [collapse_pattern, MapTarget.specs, ← exists_readPattern_iff, MapTarget.read]
    exact exists_map_eq_some_iff

/-- A pattern is read only from what is written of a pattern. -/
theorem exists_read_eq_pattern_iff (once : Bool) (target : MapTarget) :
    (∃ read, MapTarget.read once target.toJson.collapse = some (.pattern read)) ↔
      ∃ specs, target = .pattern specs ∧
        ∀ s ∈ specs, ∃ read, AttrSpec.read once s.toJson.collapse = some read := by
  cases target with
  | recursion limit =>
    have hread := (read_toJson_iff once (.recursion limit)).mpr (by simp [specs])
    simp [hread]
  | pattern specs =>
    simp only [collapse_pattern, pattern.injEq, exists_eq_left', ← exists_readPattern_iff]
    simp [MapTarget.read, Option.map_eq_some_iff]

end MapTarget

namespace MapSpec

/-- Members of different names are read as some map spec if either their names are not those of a
selector and each has a target, or they are a key and a pattern. -/
theorem exists_assemble_iff {members : List (String × Json)} :
    (∃ spec, assemble members (readTargets members) = some spec) ↔
      (¬ (members.map (·.1)).Perm ["key", "selector"] ∧
        ∀ member ∈ members, ∃ read, MapTarget.read true member.2 = some read) ∨
      ((members.map (·.1)).Perm ["key", "selector"] ∧
        (∃ value, Json.lookup "key" members = some value ∧
          ∃ key, MapKey.ofJson? value.collapse = some key) ∧
        ∃ value, Json.lookup "selector" members = some value ∧
          ∃ specs, MapTarget.read true value = some (.pattern specs)) := by
  have hentries : (∃ entries : List (String × MapTarget), List.Forall₂ (fun member entry =>
      member.1 = entry.1 ∧ MapTarget.read true member.2 = some entry.2) members entries) ↔
      ∀ member ∈ members, ∃ read, MapTarget.read true member.2 = some read := by
    rw [exists_forall₂_iff]
    refine forall₂_congr fun member _ => ?_
    constructor
    · rintro ⟨entry, -, hread⟩
      exact ⟨_, hread⟩
    · rintro ⟨read, hread⟩
      exact ⟨(member.1, read), rfl, hread⟩
  rw [← hentries]
  constructor
  · rintro ⟨entries | ⟨key, selector⟩, hspec⟩
    · obtain ⟨hnames, hread⟩ := assemble_eq_attrs_iff.mp hspec
      exact .inl ⟨hnames, entries, hread⟩
    · obtain ⟨hnames, ⟨k, hk, hkey⟩, v, hv, hselector⟩ := assemble_eq_keyed_iff.mp hspec
      exact .inr ⟨hnames, ⟨k, hk, key, hkey⟩, v, hv, selector, hselector⟩
  · rintro (⟨hnames, entries, hread⟩ | ⟨hnames, ⟨k, hk, key, hkey⟩, v, hv, selector, hselector⟩)
    · exact ⟨_, assemble_eq_attrs_iff.mpr ⟨hnames, hread⟩⟩
    · exact ⟨_, assemble_eq_keyed_iff.mpr ⟨hnames, ⟨k, hk, hkey⟩, v, hv, hselector⟩⟩

/-- The same of entries that are written. -/
theorem exists_assemble_entries_iff {entries : List (String × MapTarget)}
    (h : (entries.map (·.1)).Nodup) :
    (∃ spec, assemble (entries.map fun entry => (entry.1, entry.2.toJson.collapse))
        (readTargets (entries.map fun entry => (entry.1, entry.2.toJson.collapse))) = some spec) ↔
      (¬ (entries.map (·.1)).Perm ["key", "selector"] ∧ ∀ entry ∈ entries, ∀ s ∈ entry.2.specs,
        ∃ read, AttrSpec.read true s.toJson.collapse = some read) ∨
      ∃ key specs, entries.Perm [("key", key), ("selector", .pattern specs)] ∧ key.PassesForKey ∧
        ∀ s ∈ specs, ∃ read, AttrSpec.read true s.toJson.collapse = some read := by
  have hnames : (entries.map fun entry => (entry.1, entry.2.toJson.collapse)).map (·.1) =
      entries.map (·.1) := by
    rw [List.map_map]
    rfl
  have hlookup : ∀ name value,
      Json.lookup name (entries.map fun entry => (entry.1, entry.2.toJson.collapse)) = some value ↔
        ∃ target, Json.lookup name entries = some target ∧ target.toJson.collapse = value := by
    intro name value
    rw [Json.lookup_map name (fun target : MapTarget => target.toJson.collapse),
      Option.map_eq_some_iff]
  rw [exists_assemble_iff, hnames]
  refine or_congr (and_congr Iff.rfl ?_) ?_
  · rw [List.forall_mem_map]
    exact forall₂_congr fun entry _ => entry.2.exists_read_toJson_iff true
  · constructor
    · rintro ⟨hkeyed, ⟨_, hk, hkey⟩, _, hv, hselector⟩
      obtain ⟨key, hfirst, rfl⟩ := (hlookup _ _).mp hk
      obtain ⟨target, hsecond, rfl⟩ := (hlookup _ _).mp hv
      rw [Json.collapse_collapse, MapTarget.exists_ofJson?_iff] at hkey
      obtain ⟨specs, rfl, hspecs⟩ := (target.exists_read_eq_pattern_iff true).mp hselector
      have hperm := (Json.perm_pair_iff (by decide) h).mpr ⟨hkeyed, hfirst, hsecond⟩
      exact ⟨key, specs, hperm, hkey, hspecs⟩
    · rintro ⟨key, specs, hperm, hkey, hspecs⟩
      obtain ⟨hkeyed, hfirst, hsecond⟩ := (Json.perm_pair_iff (by decide) h).mp hperm
      rw [← MapTarget.exists_ofJson?_iff, ← Json.collapse_collapse] at hkey
      have hselector := ((MapTarget.pattern specs).exists_read_eq_pattern_iff true).mpr
        ⟨specs, rfl, hspecs⟩
      exact ⟨hkeyed, ⟨_, (hlookup _ _).mpr ⟨key, hfirst, rfl⟩, hkey⟩,
        _, (hlookup _ _).mpr ⟨_, hsecond, rfl⟩, hselector⟩

end MapSpec

/-- The wire form of a spec is read as some spec exactly if the spec is readable. -/
theorem AttrSpec.exists_read_toJson_iff (once : Bool) (s : AttrSpec) :
    (∃ read, AttrSpec.read once s.toJson.collapse = some read) ↔ s.Readable := by
  induction s using nestedInduction generalizing once with
  | name attr => exact iff_of_true ⟨_, rfl⟩ (.name attr)
  | wildcard => exact iff_of_true ⟨_, rfl⟩ .wildcard
  | option o =>
    rw [readable_option_iff, ← o.exists_ofItems?_toJson_iff, read_option_toJson]
    exact exists_map_eq_some_iff
  | attrs entries ih =>
    have hassemble := MapSpec.exists_assemble_entries_iff (Json.nodup_latest entries)
    have hinside : ∀ entry ∈ Json.latest entries, ∀ s ∈ entry.2.specs,
        (∃ read, AttrSpec.read true s.toJson.collapse = some read) ↔ s.Readable :=
      fun entry hentry s hs => ih entry (Json.mem_of_mem_latest hentry) s hs true
    rw [read_attrs_toJson, readable_attrs_iff, exists_map_eq_some_iff, hassemble]
    refine or_congr (and_congr Iff.rfl ?_) ?_
    · exact forall₂_congr fun entry hentry => forall₂_congr (hinside entry hentry)
    · refine exists₂_congr fun key specs => and_congr_right fun hentries => ?_
      have hselector : ("selector", MapTarget.pattern specs) ∈ Json.latest entries :=
        hentries.mem_iff.mpr (by simp)
      exact and_congr Iff.rfl (forall₂_congr (hinside _ hselector))
  | keyed key selector ih =>
    have hkey : (∃ read, MapKey.ofJson? key.toJson.collapse = some read) ↔ key.Readable := by
      rw [Json.collapse_eq_self key.distinct_toJson, key.exists_ofJson?_toJson_iff]
    have hselector : (∃ read, MapTarget.read true (MapTarget.pattern selector).toJson.collapse =
        some (.pattern read)) ↔ ∀ s ∈ selector, s.Readable := by
      simp only [MapTarget.exists_read_eq_pattern_iff, MapTarget.pattern.injEq, exists_eq_left']
      exact forall₂_congr fun s hs => ih s hs true
    rw [collapse_keyed, read_obj (by simp), readable_keyed_iff, exists_map_eq_some_iff,
      MapSpec.exists_assemble_iff, ← hkey, ← hselector]
    simp [Json.lookup_cons]

/-! ### Pulls -/

namespace Pull

/-- The specs of the pattern are readable. -/
def Readable (p : Pull) : Prop := ∀ s ∈ p.pattern, s.Readable

/-- The wire form of a pull is read as some pull exactly if the pull is readable. -/
theorem exists_reads_toJson_iff (p : Pull) :
    (∃ read, Reads decode p.toJson.collapse read) ↔ p.Readable := by
  have hpattern : (∃ specs, Reads (Json.each AttrSpec.decode)
      (.arr (p.pattern.map fun spec => spec.toJson.collapse)) specs) ↔ p.Readable := by
    rw [Json.exists_reads_each_map_iff, Readable]
    simp only [AttrSpec.decode, Json.reads_inSomeForm_iff, AttrSpec.exists_read_toJson_iff]
  rw [← hpattern, collapse_toJson, decode]
  simp only [Json.Record.reads_pair_iff (r := record) rfl (by decide) rfl fun _ => rfl]
  constructor
  · rintro ⟨read, specs, entity, hspecs, -⟩
    exact ⟨specs, hspecs⟩
  · rintro ⟨specs, hspecs⟩
    exact ⟨⟨specs, p.entity⟩, specs, p.entity, hspecs, Json.reads_text_iff.mpr rfl, rfl⟩

end Pull

end DatalogClient
