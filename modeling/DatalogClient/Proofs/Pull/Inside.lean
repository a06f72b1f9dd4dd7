import DatalogClient.Pull.Basic

/-!
# Specs inside specs

Map specs hold patterns, and patterns hold specs again. What is to hold at every depth is stated
for one spec, apart from the specs inside it, and proved by one induction.

## Main definitions

* `MapTarget.specs` — the pattern behind an attribute, which is empty for a recursion
* `AttrSpec.Every` — a condition holds of a spec and of every spec inside it

## Main results

* `AttrSpec.nestedInduction` — induction over specs and the patterns that they hold
-/

namespace DatalogClient

/-- The specs that a target holds. -/
def MapTarget.specs : MapTarget → List AttrSpec
  | .pattern specs => specs
  | .recursion _ => []

mutual

/-- A condition holds of a spec and of every spec inside it. -/
def AttrSpec.Every (p : AttrSpec → Prop) : AttrSpec → Prop
  | .name attr => p (.name attr)
  | .wildcard => p .wildcard
  | .option o => p (.option o)
  | .map spec => p (.map spec) ∧ MapSpec.EveryInside p spec

/-- The condition holds everywhere inside a map spec. -/
def MapSpec.EveryInside (p : AttrSpec → Prop) : MapSpec → Prop
  | .attrs entries => MapSpec.EveryEntry p entries
  | .keyed _ selector => AttrSpec.EveryItem p selector

/-- The condition holds everywhere inside the targets of entries. -/
def MapSpec.EveryEntry (p : AttrSpec → Prop) : List (String × MapTarget) → Prop
  | [] => True
  | (_, target) :: rest => MapTarget.EveryInside p target ∧ MapSpec.EveryEntry p rest

/-- The condition holds everywhere inside a target. -/
def MapTarget.EveryInside (p : AttrSpec → Prop) : MapTarget → Prop
  | .pattern specs => AttrSpec.EveryItem p specs
  | .recursion _ => True

/-- The condition holds everywhere inside the specs of a pattern. -/
def AttrSpec.EveryItem (p : AttrSpec → Prop) : List AttrSpec → Prop
  | [] => True
  | spec :: rest => AttrSpec.Every p spec ∧ AttrSpec.EveryItem p rest

end

variable {p : AttrSpec → Prop}

theorem AttrSpec.everyItem_iff (specs : List AttrSpec) :
    AttrSpec.EveryItem p specs ↔ ∀ spec ∈ specs, spec.Every p := by
  induction specs with
  | nil => simp [AttrSpec.EveryItem]
  | cons spec rest ih => simp [AttrSpec.EveryItem, ih]

theorem MapTarget.everyInside_iff (target : MapTarget) :
    target.EveryInside p ↔ ∀ spec ∈ target.specs, spec.Every p := by
  cases target with
  | pattern specs => rw [MapTarget.EveryInside, AttrSpec.everyItem_iff, MapTarget.specs]
  | recursion limit => simp [MapTarget.EveryInside, MapTarget.specs]

theorem MapSpec.everyEntry_iff (entries : List (String × MapTarget)) :
    MapSpec.EveryEntry p entries ↔
      ∀ entry ∈ entries, ∀ spec ∈ entry.2.specs, spec.Every p := by
  induction entries with
  | nil => simp [MapSpec.EveryEntry]
  | cons entry rest ih => simp [MapSpec.EveryEntry, ih, MapTarget.everyInside_iff]

namespace AttrSpec

@[simp] theorem every_attrs (entries : List (String × MapTarget)) :
    (AttrSpec.map (.attrs entries)).Every p ↔
      p (.map (.attrs entries)) ∧ ∀ entry ∈ entries, ∀ spec ∈ entry.2.specs, spec.Every p := by
  rw [Every, MapSpec.EveryInside, MapSpec.everyEntry_iff]

@[simp] theorem every_keyed (key : MapKey) (selector : List AttrSpec) :
    (AttrSpec.map (.keyed key selector)).Every p ↔
      p (.map (.keyed key selector)) ∧ ∀ spec ∈ selector, spec.Every p := by
  rw [Every, MapSpec.EveryInside, everyItem_iff]

/-- Induction over specs: a statement about a map spec may use the statement about every spec of
the patterns that it holds. -/
theorem nestedInduction {motive : AttrSpec → Prop} (name : ∀ attr, motive (.name attr))
    (wildcard : motive .wildcard) (option : ∀ o, motive (.option o))
    (attrs : ∀ entries : List (String × MapTarget),
      (∀ entry ∈ entries, ∀ spec ∈ entry.2.specs, motive spec) → motive (.map (.attrs entries)))
    (keyed : ∀ key selector, (∀ spec ∈ selector, motive spec) →
      motive (.map (.keyed key selector)))
    (spec : AttrSpec) : motive spec := by
  -- The recursor also speaks of map specs, of targets, of lists of both, and of entries.
  refine @AttrSpec.rec motive (fun spec => motive (.map spec))
    (fun target => ∀ spec ∈ target.specs, motive spec)
    (fun entries => ∀ entry ∈ entries, ∀ spec ∈ entry.2.specs, motive spec)
    (fun specs => ∀ spec ∈ specs, motive spec)
    (fun entry => ∀ spec ∈ entry.2.specs, motive spec)
    name wildcard option (fun _ ih => ih) attrs keyed ?_ ?_ ?_ ?_ ?_ ?_ ?_ spec
  · exact fun specs ih => ih
  · simp [MapTarget.specs]
  · simp
  · intro entry rest hentry hrest
    simp only [List.mem_cons, forall_eq_or_imp]
    exact ⟨hentry, hrest⟩
  · simp
  · intro spec rest hspec hrest
    simp only [List.mem_cons, forall_eq_or_imp]
    exact ⟨hspec, hrest⟩
  · exact fun name target ih => ih

/-- What follows from a condition holds at every depth where the condition does. -/
theorem Every.imp {q : AttrSpec → Prop} (himp : ∀ s, p s → q s) {s : AttrSpec} (h : s.Every p) :
    s.Every q := by
  induction s using nestedInduction with
  | name attr => exact himp _ h
  | wildcard => exact himp _ h
  | option o => exact himp _ h
  | attrs entries ih =>
    obtain ⟨hhere, hinside⟩ := (every_attrs entries).mp h
    exact (every_attrs entries).mpr ⟨himp _ hhere, fun entry hentry spec hspec =>
      ih entry hentry spec hspec (hinside entry hentry spec hspec)⟩
  | keyed key selector ih =>
    obtain ⟨hhere, hinside⟩ := (every_keyed key selector).mp h
    exact (every_keyed key selector).mpr ⟨himp _ hhere, fun spec hspec =>
      ih spec hspec (hinside spec hspec)⟩

/-- Two conditions that each hold at every depth hold there together. -/
theorem Every.and {q : AttrSpec → Prop} {s : AttrSpec} (hp : s.Every p) (hq : s.Every q) :
    s.Every fun s => p s ∧ q s := by
  induction s using nestedInduction with
  | name attr => exact ⟨hp, hq⟩
  | wildcard => exact ⟨hp, hq⟩
  | option o => exact ⟨hp, hq⟩
  | attrs entries ih =>
    obtain ⟨hphere, hpinside⟩ := (every_attrs entries).mp hp
    obtain ⟨hqhere, hqinside⟩ := (every_attrs entries).mp hq
    exact (every_attrs entries).mpr ⟨⟨hphere, hqhere⟩, fun entry hentry spec hspec =>
      ih entry hentry spec hspec (hpinside entry hentry spec hspec)
        (hqinside entry hentry spec hspec)⟩
  | keyed key selector ih =>
    obtain ⟨hphere, hpinside⟩ := (every_keyed key selector).mp hp
    obtain ⟨hqhere, hqinside⟩ := (every_keyed key selector).mp hq
    exact (every_keyed key selector).mpr ⟨⟨hphere, hqhere⟩, fun spec hspec =>
      ih spec hspec (hpinside spec hspec) (hqinside spec hspec)⟩

end AttrSpec

end DatalogClient
