import DatalogClient.Proofs.Pull.Inside
import DatalogClient.Proofs.Value.Canonical
import DatalogClient.Pull.Wire

/-!
# Pull patterns that are read back

The value of a document holds each name once, so a pattern is read back from the collapsed form of
what is written. Names may stand in the way: the asterisk as a name is the wildcard, entries of one
name are one entry, and the entries `key` and `selector` alone are a selector. Options are read as
literals first, so that limits beyond the signed words are lost.

## Main definitions

* `OptionKind.Canonical`, `MapKey.Canonical` — options and keys that are read back
* `AttrSpec.Canonical` — specs that are read back
* `AttrSpec.ReadSteps` — what is true of whatever is read, by its parts

## Main results

* `AttrSpec.read_toJson_iff` — a spec is read back exactly if it is canonical
* `AttrSpec.canonical_of_read_both` — a spec that was read is canonical
* `Pull.reads_toJson_iff`, `Pull.canonical_of_decode` — the same of pulls
-/

namespace DatalogClient

open Json (Reads)
open Value (marksKind)

/-! ### Options -/

namespace OptionKind

/-- A limit fits a signed word, and a default is canonical. -/
def Canonical (heads : Value → Bool) : OptionKind → Prop
  | renamed _ => True
  | limit count => (count.toNat : Int) ≤ Int64.maxValue.toInt
  | fallback value => value.Canonical heads

theorem of_default (value : Value) : of "default" value = .ok (.fallback value) := by
  cases value <;> rfl

/-- What the words of options mean. -/
theorem of_eq_ok_iff {label : String} {argument : Value} {kind : OptionKind} :
    of label argument = .ok kind ↔
      (label = "as" ∧ ∃ name, argument = .text name ∧ kind = .renamed name) ∨
        (label = "limit" ∧ ∃ n, argument = .int n ∧ ¬ n < 0 ∧ kind = .limit n.toUInt64) ∨
        (label = "default" ∧ kind = .fallback argument) := by
  constructor
  · intro h
    rw [of.eq_def] at h
    split at h
    · exact .inl ⟨rfl, _, rfl, (Except.ok.inj h).symm⟩
    · split_ifs at h with hneg
      exact .inr (.inl ⟨rfl, _, rfl, hneg, (Except.ok.inj h).symm⟩)
    · exact .inr (.inr ⟨rfl, (Except.ok.inj h).symm⟩)
    · simp at h
  · intro h
    rcases h with ⟨rfl, name, rfl, rfl⟩ | ⟨rfl, n, rfl, hneg, rfl⟩ | ⟨rfl, rfl⟩
    · rfl
    · simp [of, hneg]
    · exact of_default argument

/-- The literal of an option's argument leads back to the option if the option is canonical. -/
theorem of_argument_iff (kind : OptionKind) :
    (∃ value, Value.ofJson? kind.argument = some value ∧ of kind.label value = .ok kind) ↔
      kind.Canonical marksKind := by
  cases kind with
  | renamed name =>
    refine iff_of_true ⟨.text name, rfl, ?_⟩ trivial
    rfl
  | limit count =>
    rw [Canonical, argument, Json.int, Value.ofJson?, Value.ofInt, label]
    constructor
    · intro h
      obtain ⟨value, hvalue, hkind⟩ := h
      -- A limit beyond the signed words is read as a floating-point number, which is no limit.
      by_contra hgreat
      rw [if_neg fun hrange => hgreat hrange.2, Option.some_inj] at hvalue
      rw [← hvalue, of_eq_ok_iff] at hkind
      simp at hkind
    · intro hfits
      have hlow : Int64.minValue.toInt ≤ (count.toNat : Int) := by
        rw [Int64.toInt_minValue]
        omega
      obtain ⟨hback, hpos⟩ := toUInt64_ofInt_toNat hfits
      have hkind : of "limit" (.int (Int64.ofInt count.toNat)) = .ok (.limit count) :=
        of_eq_ok_iff.mpr (.inr (.inl ⟨rfl, _, rfl, hpos, by rw [hback]⟩))
      rw [if_pos ⟨hlow, hfits⟩]
      exact ⟨_, rfl, hkind⟩
  | fallback value =>
    rw [Canonical, ← Value.ofJson?_toJson_iff, argument, label]
    simp only [of_default, Except.ok.injEq, fallback.injEq, exists_eq_right]

/-- The option of an argument that was read is canonical. -/
theorem canonical_of_argument {label : String} {argument : Value} {kind : OptionKind}
    (hargument : argument.Canonical marksKind) (h : of label argument = .ok kind) :
    kind.Canonical marksKind := by
  rcases of_eq_ok_iff.mp h with ⟨-, name, -, rfl⟩ | ⟨-, n, -, hneg, rfl⟩ | ⟨-, rfl⟩
  · trivial
  · exact toNat_toUInt64_le hneg
  · exact hargument

theorem distinct_argument (kind : OptionKind) : kind.argument.Distinct := by
  cases kind with
  | renamed name => trivial
  | limit count => trivial
  | fallback value => exact value.distinct_toJson

end OptionKind

namespace AttrOption

theorem distinct_toJson (o : AttrOption) : o.toJson.Distinct := by
  rw [toJson, Json.distinct_arr]
  simp only [List.mem_cons, List.not_mem_nil, or_false, forall_eq_or_imp, forall_eq]
  exact ⟨trivial, trivial, o.kind.distinct_argument⟩

/-- An option of a list is made of an attribute, a word, and a literal. -/
theorem ofItems?_eq_some_iff {items : List Json} {o : AttrOption} :
    ofItems? items = some o ↔
      ∃ label argument, items = [.str o.attr, .str label, argument] ∧
        ∃ value, Value.ofJson? argument = some value ∧ OptionKind.of label value = .ok o.kind := by
  constructor
  · intro h
    rw [ofItems?.eq_def] at h
    split at h
    · split at h
      · simp at h
      · split at h
        · obtain rfl := Option.some.inj h
          exact ⟨_, _, rfl, _, ‹_›, ‹_›⟩
        · simp at h
    · simp at h
  · intro h
    obtain ⟨label, argument, hitems, value, hvalue, hkind⟩ := h
    subst hitems
    simp [ofItems?, hvalue, hkind]

/-- An option is read back exactly if it is canonical. -/
theorem ofItems?_toJson_iff (o : AttrOption) :
    ofItems? [.str o.attr, .str o.kind.label, o.kind.argument] = some o ↔
      o.kind.Canonical marksKind := by
  rw [ofItems?_eq_some_iff, ← OptionKind.of_argument_iff]
  constructor
  · intro h
    obtain ⟨label, argument, hitems, hvalue⟩ := h
    simp only [List.cons.injEq, Json.str.injEq, and_true, true_and] at hitems
    obtain ⟨hlabel, hargument⟩ := hitems
    rwa [hlabel, hargument]
  · intro hvalue
    exact ⟨_, _, rfl, hvalue⟩

theorem canonical_of_ofItems? {items : List Json} (hitems : ∀ item ∈ items, item.Finite)
    {o : AttrOption} (h : ofItems? items = some o) : o.kind.Canonical marksKind := by
  obtain ⟨label, argument, rfl, value, hvalue, hkind⟩ := ofItems?_eq_some_iff.mp h
  have hargument := Value.canonical_of_ofJson? (hitems argument (by simp)) hvalue
  exact OptionKind.canonical_of_argument hargument hkind

end AttrOption

/-! ### Keys and limits -/

namespace MapKey

/-- The option of a key is canonical. -/
def Canonical (heads : Value → Bool) : MapKey → Prop
  | attr _ => True
  | option o => o.kind.Canonical heads

theorem distinct_toJson (key : MapKey) : key.toJson.Distinct := by
  cases key with
  | attr name => trivial
  | option o => exact o.distinct_toJson

theorem ofJson?_toJson_iff (key : MapKey) :
    ofJson? key.toJson = some key ↔ key.Canonical marksKind := by
  cases key with
  | attr name => simp [toJson, ofJson?, Canonical]
  | option o =>
    rw [Canonical, ← o.ofItems?_toJson_iff, toJson, AttrOption.toJson, ofJson?]
    simp

theorem canonical_of_ofJson? {j : Json} (hj : j.Finite) {key : MapKey}
    (h : ofJson? j = some key) : key.Canonical marksKind := by
  rw [ofJson?.eq_def] at h
  split at h
  · obtain rfl := Option.some.inj h
    trivial
  · obtain ⟨o, ho, rfl⟩ := Option.map_eq_some_iff.mp h
    rw [Json.finite_arr] at hj
    exact AttrOption.canonical_of_ofItems? hj ho
  · simp at h

end MapKey

namespace RecursionLimit

theorem distinct_toJson (limit : RecursionLimit) : limit.toJson.Distinct := by
  cases limit <;> trivial

/-- Every limit is read back. -/
theorem ofJson?_toJson (limit : RecursionLimit) : ofJson? limit.toJson = some limit := by
  cases limit with
  | depth count => simp [toJson, Json.int, ofJson?]
  | unbounded => simp [toJson, ofJson?]

end RecursionLimit

/-! ### Specs -/

namespace MapSpec

/-- The names of a selector are `key` and `selector`, in either order. -/
theorem isKeyed_iff (names : List String) :
    isKeyed names = true ↔ names.Perm ["key", "selector"] := by
  constructor
  · intro h
    simp only [isKeyed, Bool.and_eq_true, beq_iff_eq, List.contains_iff_mem] at h
    obtain ⟨⟨hlength, hkey⟩, hselector⟩ := h
    -- There are two places and both names are among them, so each has its own.
    match names, hlength with
    | [a, b], _ =>
      simp only [List.mem_cons, List.not_mem_nil, or_false] at hkey hselector
      rcases hkey with rfl | rfl
      · rcases hselector with h | rfl
        · simp at h
        · exact .refl _
      · rcases hselector with rfl | h
        · exact .swap _ _ _
        · simp at h
  · intro h
    have hmem : ∀ name, name ∈ names ↔ name ∈ ["key", "selector"] := fun name => h.mem_iff
    simp [isKeyed, h.length_eq, hmem]

@[simp] theorem entriesToJson_eq_map (entries : List (String × MapTarget)) :
    entriesToJson entries = entries.map fun entry => (entry.1, entry.2.toJson) := by
  induction entries with
  | nil => rfl
  | cons entry rest ih => rw [entriesToJson, ih, List.map_cons]

@[simp] theorem readTargets_eq_map (members : List (String × Json)) :
    readTargets members = members.map fun member => (member.1, MapTarget.read true member.2) := by
  induction members with
  | nil => rfl
  | cons member rest ih => rw [readTargets, ih, List.map_cons]

/-- All targets are there. -/
theorem allTargets_eq_some_iff {targets : List (String × Option MapTarget)}
    {entries : List (String × MapTarget)} :
    allTargets targets = some entries ↔
      targets = entries.map fun entry => (entry.1, some entry.2) := by
  induction targets generalizing entries with
  | nil => cases entries <;> simp [allTargets]
  | cons target rest ih =>
    obtain ⟨name, _ | t⟩ := target
    · cases entries <;> simp [allTargets]
    · cases entries with
      | nil => simp [allTargets]
      | cons entry others =>
        obtain ⟨n, u⟩ := entry
        simp only [allTargets, Option.map_eq_some_iff, ih, List.cons.injEq, Prod.mk.injEq,
          List.map_cons, Option.some.injEq]
        constructor
        · intro h
          obtain ⟨_, hrest, hhead, rfl⟩ := h
          exact ⟨hhead, hrest⟩
        · intro h
          obtain ⟨hhead, hrest⟩ := h
          exact ⟨others, hrest, hhead, rfl⟩

end MapSpec

namespace AttrSpec

/-- The condition on a spec, apart from the specs inside it. -/
def CanonicalHere (heads : Value → Bool) : AttrSpec → Prop
  | .name attr => attr ≠ "*"
  | .wildcard => True
  | .option o => o.kind.Canonical heads
  | .map (.attrs entries) =>
    (entries.map (·.1)).Nodup ∧ ¬ (entries.map (·.1)).Perm ["key", "selector"]
  | .map (.keyed key _) => key.Canonical heads

/-- No name is the asterisk, options and keys are canonical, and the names of entries differ and
are not just those of a selector, at every depth. -/
def Canonical (heads : Value → Bool) (s : AttrSpec) : Prop := s.Every (CanonicalHere heads)

@[simp] theorem patternToJson_eq_map (specs : List AttrSpec) :
    patternToJson specs = specs.map toJson := by
  induction specs with
  | nil => rfl
  | cons spec rest ih => rw [patternToJson, ih, List.map_cons]

theorem readPattern_eq_some_iff {once : Bool} {items : List Json} {specs : List AttrSpec} :
    readPattern once items = some specs ↔
      List.Forall₂ (fun item spec => read once item = some spec) items specs :=
  Json.readList_eq_some_iff (read once) (readPattern once) rfl fun item rest => by
    rw [readPattern]
    cases read once item <;> rfl

/-- A pattern is read back if each of its specs is. -/
theorem readPattern_map_iff {once : Bool} {specs : List AttrSpec} :
    readPattern once (specs.map fun spec => spec.toJson.collapse) = some specs ↔
      ∀ spec ∈ specs, read once spec.toJson.collapse = some spec := by
  rw [readPattern_eq_some_iff, List.forall₂_map_left_iff, List.forall₂_same]

end AttrSpec

/-- A target is read back if each of its specs is. -/
theorem MapTarget.read_toJson_iff (once : Bool) (target : MapTarget) :
    read once target.toJson.collapse = some target ↔
      ∀ spec ∈ target.specs, AttrSpec.read once spec.toJson.collapse = some spec := by
  cases target with
  | pattern specs =>
    rw [toJson, AttrSpec.patternToJson_eq_map, Json.collapse, Json.collapseItems_eq_map,
      List.map_map, read, MapTarget.specs, ← AttrSpec.readPattern_map_iff]
    simp [Function.comp_def]
  | recursion limit =>
    rw [toJson, Json.collapse_eq_self limit.distinct_toJson]
    have hback := limit.ofJson?_toJson
    cases limit with
    | depth count => simpa [RecursionLimit.toJson, Json.int, read, MapTarget.specs] using hback
    | unbounded => simpa [RecursionLimit.toJson, read, MapTarget.specs] using hback

namespace MapSpec

/-- Members whose names are not those of a selector are entries, each with its target. -/
theorem assemble_eq_attrs_iff {members : List (String × Json)}
    {entries : List (String × MapTarget)} :
    assemble members (readTargets members) = some (.attrs entries) ↔
      ¬ (members.map (·.1)).Perm ["key", "selector"] ∧
        List.Forall₂ (fun member entry => member.1 = entry.1 ∧
          MapTarget.read true member.2 = some entry.2) members entries := by
  rw [assemble, ← isKeyed_iff, readTargets_eq_map]
  cases hkeyed : isKeyed (members.map (·.1)) with
  | true =>
    simp only [if_true, not_true_eq_false, false_and, iff_false]
    split
    · simp [Option.map_eq_some_iff]
    · simp
  | false =>
    simp only [Bool.false_eq_true, if_false, not_false_eq_true, true_and, Option.map_eq_some_iff,
      MapSpec.attrs.injEq, exists_eq_right, allTargets_eq_some_iff]
    rw [← List.forall₂_eq_eq_eq, List.forall₂_map_left_iff, List.forall₂_map_right_iff]
    simp only [Prod.mk.injEq]

/-- Lists whose entries have the same names one by one have the same names. -/
theorem map_fst_eq_of_forall₂ {α β : Type} {R : String × α → String × β → Prop}
    {members : List (String × α)} {entries : List (String × β)}
    (h : List.Forall₂ (fun member entry => member.1 = entry.1 ∧ R member entry) members entries) :
    members.map (·.1) = entries.map (·.1) := by
  rw [← List.forall₂_eq_eq_eq, List.forall₂_map_left_iff, List.forall₂_map_right_iff]
  exact h.imp fun _ _ hentry => hentry.1

/-- Entries have the names of the members that they were read from. -/
theorem map_fst_of_assemble {members : List (String × Json)} {entries : List (String × MapTarget)}
    (h : assemble members (readTargets members) = some (.attrs entries)) :
    members.map (·.1) = entries.map (·.1) :=
  map_fst_eq_of_forall₂ (assemble_eq_attrs_iff.mp h).2

/-- Members of the names of a selector are a selector. -/
theorem assemble_eq_keyed_iff {members : List (String × Json)} {key : MapKey}
    {selector : List AttrSpec} :
    assemble members (readTargets members) = some (.keyed key selector) ↔
      (members.map (·.1)).Perm ["key", "selector"] ∧
        (∃ value, Json.lookup "key" members = some value ∧
          MapKey.ofJson? value.collapse = some key) ∧
        ∃ value, Json.lookup "selector" members = some value ∧
          MapTarget.read true value = some (.pattern selector) := by
  rw [assemble, ← isKeyed_iff, readTargets_eq_map]
  cases hkeyed : isKeyed (members.map (·.1)) with
  | false => simp
  | true =>
    rw [if_pos rfl, Json.lookup_map, and_iff_right rfl]
    cases hkey : Json.lookup "key" members with
    | none => simp
    | some k =>
      cases hselector : Json.lookup "selector" members with
      | none => simp
      | some v =>
        simp only [Option.map_some, Option.some.injEq, exists_eq_left']
        cases MapTarget.read true v with
        | none => simp
        | some target =>
          cases target with
          | recursion limit => simp
          | pattern specs => simp [Option.map_eq_some_iff]

end MapSpec

/-! ### Reading back -/

namespace AttrSpec

/-- Members are read as the map spec that they assemble to; where names may repeat only the latest
members count. -/
theorem read_obj {once : Bool} {members : List (String × Json)}
    (h : (members.map (·.1)).Nodup) :
    read once (.obj members) =
      (MapSpec.assemble members (MapSpec.readTargets members)).map .map := by
  have htargets : ((MapSpec.readTargets members).map (·.1)).Nodup := by
    rwa [MapSpec.readTargets_eq_map, List.map_map]
  rw [read, Json.latest_eq_self h, Json.latest_eq_self htargets, ite_self]

/-- Of entries of one name only the last stays when names are collapsed. -/
theorem collapse_attrs (entries : List (String × MapTarget)) :
    (AttrSpec.map (.attrs entries)).toJson.collapse =
      .obj (Json.latest (entries.map fun entry => (entry.1, entry.2.toJson.collapse))) := by
  rw [toJson, MapSpec.toJson, MapSpec.entriesToJson_eq_map, Json.collapse,
    Json.collapseMembers_eq_map, List.map_map]
  rfl

theorem collapse_attrs_of_nodup {entries : List (String × MapTarget)}
    (h : (entries.map (·.1)).Nodup) :
    (AttrSpec.map (.attrs entries)).toJson.collapse =
      .obj (entries.map fun entry => (entry.1, entry.2.toJson.collapse)) := by
  have hmembers : ((entries.map fun entry => (entry.1, entry.2.toJson.collapse)).map
      (·.1)).Nodup := by
    rwa [List.map_map]
  rw [collapse_attrs, Json.latest_eq_self hmembers]

theorem collapse_keyed (key : MapKey) (selector : List AttrSpec) :
    (AttrSpec.map (.keyed key selector)).toJson.collapse =
      .obj [("key", key.toJson), ("selector", (MapTarget.pattern selector).toJson.collapse)] := by
  have hnames : ([("key", key.toJson),
      ("selector", (MapTarget.pattern selector).toJson.collapse)].map (·.1)).Nodup := by
    simp
  rw [toJson, MapSpec.toJson, Json.collapse, Json.collapseMembers_eq_map, List.map_cons,
    List.map_cons, List.map_nil, Json.collapse_eq_self key.distinct_toJson, ← MapTarget.toJson,
    Json.latest_eq_self hnames]

/-- The names of the entries differ. -/
def EntriesDiffer : AttrSpec → Prop
  | .name _ => True
  | .wildcard => True
  | .option _ => True
  | .map (.attrs entries) => (entries.map (·.1)).Nodup
  | .map (.keyed _ _) => True

/-- Where the names of entries differ no name repeats in the wire form. -/
theorem distinct_toJson {s : AttrSpec} (h : s.Every EntriesDiffer) : s.toJson.Distinct := by
  induction s using nestedInduction with
  | name attr => trivial
  | wildcard => trivial
  | option o => exact o.distinct_toJson
  | attrs entries ih =>
    obtain ⟨hnames, hinside⟩ := (every_attrs entries).mp h
    rw [toJson, MapSpec.toJson, MapSpec.entriesToJson_eq_map, Json.distinct_obj, List.map_map,
      List.forall_mem_map]
    refine ⟨hnames, ?_⟩
    intro entry hentry
    obtain ⟨name, target⟩ := entry
    cases target with
    | pattern specs =>
      rw [MapTarget.toJson, patternToJson_eq_map, Json.distinct_arr, List.forall_mem_map]
      exact fun s hs => ih _ hentry s hs (hinside _ hentry s hs)
    | recursion limit => exact limit.distinct_toJson
  | keyed key selector ih =>
    obtain ⟨-, hinside⟩ := (every_keyed key selector).mp h
    have hselector : (Json.arr (selector.map toJson)).Distinct := by
      rw [Json.distinct_arr, List.forall_mem_map]
      exact fun s hs => ih s hs (hinside s hs)
    rw [toJson, MapSpec.toJson, patternToJson_eq_map, Json.distinct_obj, List.forall_mem_cons,
      List.forall_mem_singleton]
    exact ⟨by simp, key.distinct_toJson, hselector⟩

theorem Canonical.entriesDiffer {heads : Value → Bool} {s : AttrSpec} (h : s.Canonical heads) :
    s.Every EntriesDiffer := by
  refine Every.imp ?_ h
  intro s hcanonical
  cases s with
  | map spec =>
    cases spec with
    | attrs entries => exact hcanonical.1
    | keyed key selector => trivial
  | name _ | wildcard | option _ => trivial

/-- A written option is read from its three items. -/
theorem read_option_toJson (once : Bool) (o : AttrOption) :
    read once (option o).toJson.collapse =
      (AttrOption.ofItems? [.str o.attr, .str o.kind.label, o.kind.argument]).map .option := by
  have hitems : Json.collapseItems [.str o.attr, .str o.kind.label, o.kind.argument] =
      [.str o.attr, .str o.kind.label, o.kind.argument] :=
    Json.arr.inj (Json.collapse_eq_self o.distinct_toJson)
  rw [toJson, Json.collapse_eq_self o.distinct_toJson, AttrOption.toJson, read, hitems, ite_self]

/-- Written entries are read from those that are kept, each with its value collapsed. -/
theorem read_attrs_toJson (once : Bool) (entries : List (String × MapTarget)) :
    read once (map (.attrs entries)).toJson.collapse =
      let members := (Json.latest entries).map fun entry => (entry.1, entry.2.toJson.collapse)
      (MapSpec.assemble members (MapSpec.readTargets members)).map .map := by
  have hnames : (((Json.latest entries).map fun entry =>
      (entry.1, entry.2.toJson.collapse)).map (·.1)).Nodup := by
    rw [List.map_map]
    exact Json.nodup_latest entries
  rw [collapse_attrs, Json.latest_map (fun target : MapTarget => target.toJson.collapse),
    read_obj hnames]

/-- Entries are read back if their names differ and are not those of a selector, and each target
is read back. -/
theorem read_attrs_toJson_iff {once : Bool} {entries : List (String × MapTarget)} :
    read once (map (.attrs entries)).toJson.collapse = some (.map (.attrs entries)) ↔
      ((entries.map (·.1)).Nodup ∧ ¬ (entries.map (·.1)).Perm ["key", "selector"]) ∧
        ∀ entry ∈ entries, MapTarget.read true entry.2.toJson.collapse = some entry.2 := by
  rw [read_attrs_toJson, Option.map_eq_some_iff]
  by_cases hnames : (entries.map (·.1)).Nodup
  · rw [Json.latest_eq_self hnames]
    simp only [AttrSpec.map.injEq, exists_eq_right, MapSpec.assemble_eq_attrs_iff, List.map_map,
      Function.comp_def, List.forall₂_map_left_iff, List.forall₂_same, true_and, hnames]
  · -- The names that are read differ, so these are not the entries that were written.
    refine iff_of_false ?_ fun h => hnames h.1.1
    rintro ⟨spec, hspec, hentries⟩
    obtain rfl := AttrSpec.map.inj hentries
    apply hnames
    rw [← MapSpec.map_fst_of_assemble hspec, List.map_map]
    exact Json.nodup_latest entries

/-- A selector is read back with its key if both are read back. -/
theorem read_keyed_toJson_iff {once : Bool} {key : MapKey} {selector : List AttrSpec} :
    read once (map (.keyed key selector)).toJson.collapse = some (.map (.keyed key selector)) ↔
      key.Canonical marksKind ∧
        MapTarget.read true (MapTarget.pattern selector).toJson.collapse =
          some (.pattern selector) := by
  rw [← key.ofJson?_toJson_iff, collapse_keyed, read_obj (by simp), Option.map_eq_some_iff]
  simp only [AttrSpec.map.injEq, exists_eq_right, MapSpec.assemble_eq_keyed_iff]
  simp [Json.lookup_cons, Json.collapse_eq_self key.distinct_toJson]

/-- A spec is read back from its wire form exactly if it is canonical. -/
theorem read_toJson_iff (once : Bool) (s : AttrSpec) :
    read once s.toJson.collapse = some s ↔ s.Canonical marksKind := by
  induction s using nestedInduction generalizing once with
  | name attr =>
    rw [toJson, Json.collapse, read, ofText]
    split_ifs with h
    · simp [Canonical, Every, CanonicalHere, h]
    · simp [Canonical, Every, CanonicalHere, h]
  | wildcard => exact iff_of_true rfl trivial
  | option o =>
    rw [read_option_toJson, Canonical, Every, CanonicalHere, ← o.ofItems?_toJson_iff,
      Option.map_eq_some_iff]
    simp
  | attrs entries ih =>
    rw [read_attrs_toJson_iff, Canonical, every_attrs, CanonicalHere]
    refine and_congr_right fun _ => forall₂_congr fun entry hentry => ?_
    rw [MapTarget.read_toJson_iff]
    exact forall₂_congr fun spec hspec => ih entry hentry spec hspec true
  | keyed key selector ih =>
    rw [read_keyed_toJson_iff, Canonical, every_keyed, CanonicalHere, MapTarget.read_toJson_iff]
    exact and_congr_right fun _ => forall₂_congr fun spec hspec => ih spec hspec true

/-- What is said of specs and of targets, each with the value that it is read from, is true of one
if it is true of its parts. -/
structure ReadSteps (ofSpec : Json → AttrSpec → Prop) (ofTarget : Json → MapTarget → Prop) :
    Prop where
  text : ∀ text, ofSpec (.str text) (ofText text)
  option : ∀ items o, AttrOption.ofItems? items = some o → ofSpec (.arr items) (.option o)
  attrs : ∀ (members : List (String × Json)) entries, (members.map (·.1)).Nodup →
    ¬ (members.map (·.1)).Perm ["key", "selector"] →
    List.Forall₂ (fun member entry => member.1 = entry.1 ∧ ofTarget member.2 entry.2)
      members entries → ofSpec (.obj members) (.map (.attrs entries))
  keyed : ∀ (members : List (String × Json)) key selector k v,
    (members.map (·.1)).Perm ["key", "selector"] → Json.lookup "key" members = some k →
    MapKey.ofJson? k = some key → Json.lookup "selector" members = some v →
    ofTarget v (.pattern selector) → ofSpec (.obj members) (.map (.keyed key selector))
  pattern : ∀ items specs, List.Forall₂ ofSpec items specs → ofTarget (.arr items) (.pattern specs)
  recursion : ∀ j limit, RecursionLimit.ofJson? j = some limit → ofTarget j (.recursion limit)

namespace ReadSteps

variable {ofSpec : Json → AttrSpec → Prop} {ofTarget : Json → MapTarget → Prop}
  {members : List (String × Json)} {items : List Json}

/-- It is true of the spec that is read from members if it is of their targets. -/
theorem of_members (steps : ReadSteps ofSpec ofTarget) (hj : (Json.obj members).Distinct)
    (ih : ∀ member ∈ members, ∀ target, MapTarget.read true member.2 = some target →
      ofTarget member.2 target) {once : Bool} {s : AttrSpec}
    (hs : read once (.obj members) = some s) : ofSpec (.obj members) s := by
  obtain ⟨hnames, hvalues⟩ := (Json.distinct_obj members).mp hj
  rw [read_obj hnames] at hs
  obtain ⟨spec, hspec, rfl⟩ := Option.map_eq_some_iff.mp hs
  cases spec with
  | attrs entries =>
    obtain ⟨hplain, hentries⟩ := MapSpec.assemble_eq_attrs_iff.mp hspec
    have hmembers := (List.forall₂_and_left members entries).mpr ⟨fun _ h => h, hentries⟩
    refine steps.attrs members entries hnames hplain (hmembers.imp fun member entry h => ?_)
    exact ⟨h.2.1, ih member h.1 entry.2 h.2.2⟩
  | keyed key selector =>
    obtain ⟨hkeyed, ⟨k, hk, hkey⟩, v, hv, hselector⟩ := MapSpec.assemble_eq_keyed_iff.mp hspec
    have hkmem := (Json.lookup_eq_some_iff hnames).mp hk
    have hvmem := (Json.lookup_eq_some_iff hnames).mp hv
    -- The key is collapsed before it is read, which changes nothing here.
    rw [Json.collapse_eq_self (hvalues _ hkmem)] at hkey
    exact steps.keyed members key selector k v hkeyed hk hkey hv (ih _ hvmem _ hselector)

/-- It is true of the option that is read from a list. -/
theorem of_items (steps : ReadSteps ofSpec ofTarget) (hj : (Json.arr items).Distinct)
    {once : Bool} {s : AttrSpec} (hs : read once (.arr items) = some s) :
    ofSpec (.arr items) s := by
  have hitems : Json.collapseItems items = items := Json.arr.inj (Json.collapse_eq_self hj)
  rw [read, hitems, ite_self] at hs
  obtain ⟨o, ho, rfl⟩ := Option.map_eq_some_iff.mp hs
  exact steps.option items o ho

/-- It is true of the pattern that is read from a list if it is of the specs of its items. -/
theorem of_pattern (steps : ReadSteps ofSpec ofTarget) {once : Bool}
    (ih : ∀ item ∈ items, ∀ s, read once item = some s → ofSpec item s) {target : MapTarget}
    (htarget : MapTarget.read once (.arr items) = some target) : ofTarget (.arr items) target := by
  rw [MapTarget.read] at htarget
  obtain ⟨specs, hspecs, rfl⟩ := Option.map_eq_some_iff.mp htarget
  rw [readPattern_eq_some_iff] at hspecs
  have hboth := (List.forall₂_and_left items specs).mpr ⟨fun _ h => h, hspecs⟩
  exact steps.pattern items specs (hboth.imp fun item s h => ih item h.1 s h.2)

/-- It is true of all specs and targets that are read. -/
theorem of_read (steps : ReadSteps ofSpec ofTarget) {j : Json} (hj : j.Distinct) (once : Bool) :
    (∀ s, read once j = some s → ofSpec j s) ∧
      ∀ target, MapTarget.read once j = some target → ofTarget j target := by
  -- A spec holds targets and a target holds specs, so the induction carries both statements.
  induction j using Json.nestedInduction generalizing once with
  | null => simp [read, MapTarget.read]
  | bool b => simp [read, MapTarget.read]
  | num n =>
    refine ⟨by simp [read], ?_⟩
    intro target htarget
    obtain ⟨limit, hlimit, rfl⟩ := Option.map_eq_some_iff.mp htarget
    exact steps.recursion _ limit hlimit
  | str text =>
    constructor
    · intro s hs
      obtain rfl := Option.some.inj hs
      exact steps.text text
    · intro target htarget
      obtain ⟨limit, hlimit, rfl⟩ := Option.map_eq_some_iff.mp htarget
      exact steps.recursion _ limit hlimit
  | arr items ih =>
    have hvalues := (Json.distinct_arr items).mp hj
    have hspecs := fun item hitem => (ih item hitem (hvalues item hitem) once).1
    exact ⟨fun s hs => steps.of_items hj hs, fun target h => steps.of_pattern hspecs h⟩
  | obj members ih =>
    have hvalues := ((Json.distinct_obj members).mp hj).2
    have htargets := fun member hmember => (ih member hmember (hvalues member hmember) true).2
    exact ⟨fun s hs => steps.of_members hj htargets hs, by simp [MapTarget.read]⟩

end ReadSteps

theorem canonical_steps : ReadSteps (fun j s => j.Finite → s.Canonical marksKind)
    (fun j target => j.Finite → ∀ spec ∈ target.specs, spec.Canonical marksKind) where
  text text _ := by
    rw [ofText]
    split_ifs with h
    · trivial
    · exact h
  option items o ho hf := AttrOption.canonical_of_ofItems? ((Json.finite_arr items).mp hf) ho
  attrs members entries hnames hplain hentries hf := by
    -- The entries have the names of the members, which differ.
    rw [Canonical, every_attrs, CanonicalHere, ← MapSpec.map_fst_eq_of_forall₂ hentries]
    refine ⟨⟨hnames, hplain⟩, ?_⟩
    intro entry hentry
    obtain ⟨member, hmember, -, htarget⟩ := Json.exists_item_of_mem hentries hentry
    exact htarget ((Json.finite_obj members).mp hf member hmember)
  keyed members key selector k v hkeyed hk hkey hv hselector hf := by
    rw [Json.finite_obj] at hf
    rw [Json.lookup_eq_some_iff (hkeyed.nodup_iff.mpr (by decide))] at hk hv
    rw [Canonical, every_keyed, CanonicalHere]
    exact ⟨key.canonical_of_ofJson? (hf _ hk) hkey, hselector (hf _ hv)⟩
  pattern items specs hspecs hf := by
    intro spec hspec
    obtain ⟨item, hitem, hread⟩ := Json.exists_item_of_mem hspecs hspec
    exact hread ((Json.finite_arr items).mp hf item hitem)
  recursion j limit _ _ := by simp [MapTarget.specs]

/-- A spec that was read is canonical, and so is every spec of a target that was read. -/
theorem canonical_of_read_both {j : Json} (hd : j.Distinct) (hf : j.Finite) (once : Bool) :
    (∀ s, read once j = some s → s.Canonical marksKind) ∧
      ∀ target, MapTarget.read once j = some target →
        ∀ spec ∈ target.specs, spec.Canonical marksKind := by
  obtain ⟨hspec, htarget⟩ := canonical_steps.of_read hd once
  exact ⟨fun s hs => hspec s hs hf, fun target h => htarget target h hf⟩

theorem canonical_of_decode (j : Json) (s : AttrSpec)
    (hj : j.Every fun j => j.NamesOnce ∧ j.FiniteNumber) (h : Reads decode j s) :
    s.Canonical marksKind := by
  obtain ⟨hd, hf⟩ := Json.every_and_iff.mp hj
  rw [decode, Json.reads_inSomeForm_iff] at h
  exact (canonical_of_read_both hd hf false).1 s h

end AttrSpec

/-! ### Pulls -/

namespace Pull

/-- The specs of the pattern are canonical. -/
def Canonical (heads : Value → Bool) (p : Pull) : Prop :=
  ∀ spec ∈ p.pattern, spec.Canonical heads

theorem collapse_toJson (p : Pull) :
    p.toJson.collapse =
      .obj [("pull", .arr (p.pattern.map fun spec => spec.toJson.collapse)),
        ("entity", .str p.entity)] := by
  have hnames : ([("pull", Json.arr (p.pattern.map fun spec => spec.toJson.collapse)),
      ("entity", Json.str p.entity)].map (·.1)).Nodup := by
    simp
  rw [toJson, AttrSpec.patternToJson_eq_map, Json.collapse, Json.collapseMembers_eq_map,
    List.map_cons, List.map_cons, List.map_nil, Json.collapse, Json.collapseItems_eq_map,
    List.map_map, Json.collapse]
  exact congrArg Json.obj (Json.latest_eq_self hnames)

theorem distinct_toJson {p : Pull} (h : ∀ s ∈ p.pattern, s.Every AttrSpec.EntriesDiffer) :
    p.toJson.Distinct := by
  have hpattern : (Json.arr (p.pattern.map AttrSpec.toJson)).Distinct := by
    rw [Json.distinct_arr, List.forall_mem_map]
    exact fun s hs => AttrSpec.distinct_toJson (h s hs)
  rw [toJson, AttrSpec.patternToJson_eq_map, Json.distinct_obj, List.forall_mem_cons,
    List.forall_mem_singleton]
  exact ⟨by simp, hpattern, trivial⟩

/-- A pull is read back exactly if it is canonical. -/
theorem reads_toJson_iff (p : Pull) :
    Reads decode p.toJson.collapse p ↔ p.Canonical marksKind := by
  have hpattern : Reads (Json.each AttrSpec.decode)
      (.arr (p.pattern.map fun spec => spec.toJson.collapse)) p.pattern ↔
        p.Canonical marksKind := by
    rw [Json.reads_each_map_iff, Canonical]
    refine forall₂_congr fun spec _ => ?_
    rw [AttrSpec.decode, Json.reads_inSomeForm_iff, AttrSpec.read_toJson_iff]
  rw [← hpattern, collapse_toJson, decode,
    Json.Record.reads_pair_iff (r := record) rfl (by decide) rfl fun _ => rfl]
  simp only [Json.reads_text_iff, Json.str.injEq]
  constructor
  · intro h
    obtain ⟨pattern, _, hread, -, hbuild⟩ := h
    obtain rfl := Except.ok.inj hbuild
    exact hread
  · intro hread
    exact ⟨p.pattern, p.entity, hread, rfl, rfl⟩

/-- A pull that was read is canonical. -/
theorem canonical_of_decode {j : Json} (hd : j.Distinct) (hf : j.Finite) {p : Pull}
    (h : Reads decode j p) : p.Canonical marksKind := by
  have hj := Json.every_and_iff.mpr ⟨hd, hf⟩
  -- Drafts stay such that the pattern, once there is one, is canonical.
  have hstep : ∀ field ∈ record.fields, ∀ (value : Json) (draft next : Draft),
      value.Every (fun j => j.NamesOnce ∧ j.FiniteNumber) →
      (∀ pattern, draft.pattern = some pattern → ∀ spec ∈ pattern, spec.Canonical marksKind) →
      field.fill (.ofJson value) draft = .ok next →
      ∀ pattern, next.pattern = some pattern → ∀ spec ∈ pattern, spec.Canonical marksKind := by
    intro field hfield value draft next hvalue hdraft hfill
    simp only [record, List.mem_cons, List.not_mem_nil, or_false] at hfield
    rcases hfield with rfl | rfl
    · obtain ⟨specs, hread, rfl⟩ := Json.RecordField.fill_of_iff.mp hfill
      intro pattern hpattern
      obtain rfl := Option.some.inj hpattern
      exact Json.forall_of_reads_each AttrSpec.canonical_of_decode hvalue hread
    · obtain ⟨entity, -, rfl⟩ := Json.RecordField.fill_of_iff.mp hfill
      exact hdraft
  obtain ⟨⟨pattern, entity⟩, hdraft, hbuild⟩ :=
    Json.Record.invariant_of_decode (by simp [record]) hstep hj h
  cases pattern with
  | none => cases hbuild
  | some pattern =>
    cases entity with
    | none => cases hbuild
    | some entity =>
      obtain rfl := Except.ok.inj hbuild
      exact hdraft pattern rfl

end Pull

end DatalogClient
