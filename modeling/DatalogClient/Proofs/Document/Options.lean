import DatalogClient.Proofs.Document.WellFormed

/-!
# Options under the check

An option stands in a pattern in two places: as an element on its own, and as the key of a selector.
An element is checked as a whole. Of a key the check looks at the attribute only, so a document may
pass with a key whose new name is empty, or one whose limit is zero.

## Main definitions

* `AttrOption.WellFormed` — an option makes sense
* `Document.EveryOption` — a condition holds of every option, at every depth and in both places
* `Document.rekeyed` — the document with something else asked of the attributes of its keys

## Main results

* `Document.issues_rekeyed` — the check does not see what is asked of the attributes of keys
* `Document.everyOption_of_validate` — what is known of the options of a document that passes
-/

namespace DatalogClient

open Spelling

/-- Where in a pattern an option stands. -/
inductive OptionPlace where
  | element
  | key
deriving DecidableEq

/-- The attribute is qualified, and the option makes sense. -/
def AttrOption.WellFormed (o : AttrOption) : Prop :=
  isQualifiedAttr o.attr = true ∧ o.kind.WellFormed

/-! ### Where options stand -/

section Places

variable {p q : OptionPlace → AttrOption → Prop}

/-- The condition holds of the option that a key is, if it is one. -/
def MapKey.EveryOption (p : OptionPlace → AttrOption → Prop) : MapKey → Prop
  | attr _ => True
  | option o => p .key o

/-- The condition holds of the options of a spec, apart from the specs inside it. -/
def AttrSpec.EveryOptionHere (p : OptionPlace → AttrOption → Prop) : AttrSpec → Prop
  | .name _ => True
  | .wildcard => True
  | .option o => p .element o
  | .map (.attrs _) => True
  | .map (.keyed key _) => key.EveryOption p

/-- The condition holds of every option of the document, wherever it is written. -/
def Document.EveryOption (p : OptionPlace → AttrOption → Prop) (d : Document) : Prop :=
  ∀ request, .pull request ∈ d.find →
    ∀ spec ∈ request.pattern, spec.Every (AttrSpec.EveryOptionHere p)

theorem AttrSpec.EveryOptionHere.imp (himp : ∀ place o, p place o → q place o) {s : AttrSpec}
    (h : s.EveryOptionHere p) : s.EveryOptionHere q := by
  match s, h with
  | .name _, _ | .wildcard, _ | .map (.attrs _), _ | .map (.keyed (.attr _) _), _ => trivial
  | .option o, h => exact himp .element o h
  | .map (.keyed (.option o) _), h => exact himp .key o h

theorem AttrSpec.EveryOptionHere.and {s : AttrSpec} (hp : s.EveryOptionHere p)
    (hq : s.EveryOptionHere q) : s.EveryOptionHere fun place o => p place o ∧ q place o := by
  match s, hp, hq with
  | .name _, _, _ | .wildcard, _, _ | .map (.attrs _), _, _ | .map (.keyed (.attr _) _), _, _ =>
    trivial
  | .option _, hp, hq => exact ⟨hp, hq⟩
  | .map (.keyed (.option _) _), hp, hq => exact ⟨hp, hq⟩

theorem Document.EveryOption.and {d : Document} (hp : d.EveryOption p) (hq : d.EveryOption q) :
    d.EveryOption fun place o => p place o ∧ q place o := by
  intro request hrequest spec hspec
  have hboth := (hp request hrequest spec hspec).and (hq request hrequest spec hspec)
  exact hboth.imp fun _ h => h.1.and h.2

theorem Document.EveryOption.imp (himp : ∀ place o, p place o → q place o) {d : Document}
    (h : d.EveryOption p) : d.EveryOption q := by
  intro request hrequest spec hspec
  exact AttrSpec.Every.imp (fun _ => .imp himp) (h request hrequest spec hspec)

end Places

/-! ### Other options in keys -/

section Rekeyed

variable (f : AttrOption → OptionKind)

/-- The key with something else asked of its attribute, if anything is asked of it. -/
def MapKey.rekeyed : MapKey → MapKey
  | attr name => .attr name
  | option o => .option { o with kind := f o }

mutual

/-- The spec with something else asked of the attributes of keys, at every depth. -/
def AttrSpec.rekeyed : AttrSpec → AttrSpec
  | .name attr => .name attr
  | .wildcard => .wildcard
  | .option o => .option o
  | .map spec => .map spec.rekeyed

/-- The map spec with something else asked of the attributes of keys. -/
def MapSpec.rekeyed : MapSpec → MapSpec
  | .attrs entries => .attrs (MapSpec.rekeyedEntries entries)
  | .keyed key selector => .keyed (key.rekeyed f) (AttrSpec.rekeyedPattern selector)

/-- The entries with something else asked of the attributes of keys. -/
def MapSpec.rekeyedEntries : List (String × MapTarget) → List (String × MapTarget)
  | [] => []
  | (name, target) :: rest => (name, target.rekeyed) :: MapSpec.rekeyedEntries rest

/-- The target with something else asked of the attributes of keys. -/
def MapTarget.rekeyed : MapTarget → MapTarget
  | .pattern specs => .pattern (AttrSpec.rekeyedPattern specs)
  | .recursion limit => .recursion limit

/-- The pattern with something else asked of the attributes of keys. -/
def AttrSpec.rekeyedPattern : List AttrSpec → List AttrSpec
  | [] => []
  | spec :: rest => spec.rekeyed :: AttrSpec.rekeyedPattern rest

end

/-- The term with something else asked of the attributes of keys. -/
def FindTerm.rekeyed : FindTerm → FindTerm
  | .pull request => .pull { request with pattern := AttrSpec.rekeyedPattern f request.pattern }
  | .var text => .var text
  | .single => .single
  | .many => .many

/-- The document with something else asked of the attributes of keys. Names and selectors stay as
they are, and so do the options that are elements. -/
def Document.rekeyed (d : Document) : Document := { d with find := d.find.map (.rekeyed f) }

/-! #### Nothing else is seen -/

@[simp] theorem MapKey.name_rekeyed (key : MapKey) : (key.rekeyed f).name = key.name := by
  cases key <;> rfl

@[simp] theorem AttrSpec.isEmpty_rekeyedPattern (specs : List AttrSpec) :
    (rekeyedPattern f specs).isEmpty = specs.isEmpty := by
  cases specs <;> rfl

theorem MapSpec.entryRemarks_rekeyed (name : String) (target : MapTarget) :
    entryRemarks (name, target.rekeyed f) = entryRemarks (name, target) := by
  match target with
  | .pattern specs => simp [entryRemarks, MapTarget.rekeyed]
  | .recursion limit => rfl

theorem MapSpec.remarks_rekeyedEntries (entries : List (String × MapTarget)) :
    (rekeyedEntries f entries).flatMap entryRemarks = entries.flatMap entryRemarks := by
  induction entries with
  | nil => rfl
  | cons entry rest ih =>
    obtain ⟨name, target⟩ := entry
    rw [rekeyedEntries, List.flatMap_cons, List.flatMap_cons, entryRemarks_rekeyed, ih]

theorem AttrSpec.remarks_rekeyed (s : AttrSpec) : (s.rekeyed f).remarks = s.remarks := by
  match s with
  | .name _ => rfl
  | .wildcard => rfl
  | .option _ => rfl
  | .map (.attrs entries) =>
    have hempty : (MapSpec.rekeyedEntries f entries).isEmpty = entries.isEmpty := by
      cases entries <;> rfl
    rw [rekeyed, MapSpec.rekeyed, remarks, remarks, hempty, MapSpec.remarks_rekeyedEntries]
  | .map (.keyed key selector) =>
    rw [rekeyed, MapSpec.rekeyed, remarks, remarks, MapKey.name_rekeyed, isEmpty_rekeyedPattern]

mutual

/-- The outline of a spec does not show what is asked of the attributes of keys. -/
theorem AttrSpec.outline_rekeyed : ∀ s : AttrSpec, (s.rekeyed f).outline = s.outline
  | .name _ => rfl
  | .wildcard => rfl
  | .option _ => rfl
  | .map spec => by
    have hremarks := AttrSpec.remarks_rekeyed f (.map spec)
    rw [AttrSpec.rekeyed] at hremarks ⊢
    rw [AttrSpec.outline, AttrSpec.outline, hremarks, MapSpec.steps_rekeyed spec]

theorem MapSpec.steps_rekeyed : ∀ spec : MapSpec, (spec.rekeyed f).steps = spec.steps
  | .attrs entries => MapSpec.entrySteps_rekeyed entries
  | .keyed _ selector => by
    rw [MapSpec.rekeyed, MapSpec.steps, MapSpec.steps, AttrSpec.patternSteps_rekeyed 0 selector]

theorem MapSpec.entrySteps_rekeyed : ∀ entries : List (String × MapTarget),
    MapSpec.entrySteps (MapSpec.rekeyedEntries f entries) = MapSpec.entrySteps entries
  | [] => rfl
  | (name, target) :: rest => by
    rw [MapSpec.rekeyedEntries, MapSpec.entrySteps, MapSpec.entrySteps,
      MapTarget.steps_rekeyed name target, MapSpec.entrySteps_rekeyed rest]

theorem MapTarget.steps_rekeyed (name : String) :
    ∀ target : MapTarget, (target.rekeyed f).steps name = target.steps name
  | .pattern specs => by
    rw [MapTarget.rekeyed, MapTarget.steps, MapTarget.steps, AttrSpec.patternSteps_rekeyed 0 specs]
  | .recursion _ => rfl

theorem AttrSpec.patternSteps_rekeyed : ∀ (index : Nat) (specs : List AttrSpec),
    AttrSpec.patternSteps index (AttrSpec.rekeyedPattern f specs) =
      AttrSpec.patternSteps index specs
  | _, [] => rfl
  | index, spec :: rest => by
    rw [AttrSpec.rekeyedPattern, AttrSpec.patternSteps, AttrSpec.patternSteps,
      AttrSpec.outline_rekeyed spec, AttrSpec.patternSteps_rekeyed (index + 1) rest]

end

theorem FindTerm.endsPair_rekeyed (find : List FindTerm) (index : Nat) :
    endsPair (find.map (.rekeyed f)) index = endsPair find index := by
  match find with
  | [] => rfl
  | .var _ :: _ | .pull _ :: _ | .single :: _ | .many :: _ =>
    simp only [endsPair, List.map_cons, List.length_cons, List.length_map, FindTerm.rekeyed]

theorem FindTerm.outline_rekeyed (find : List FindTerm) (index : Nat) (t : FindTerm) :
    (t.rekeyed f).outline (find.map (.rekeyed f)) index = t.outline find index := by
  -- A mark looks at the terms around it, but only at what kinds of terms they are.
  cases t with
  | var _ => rfl
  | pull request =>
    simp only [rekeyed, outline, Pull.outline, AttrSpec.isEmpty_rekeyedPattern,
      AttrSpec.patternSteps_rekeyed]
  | single => simp only [rekeyed, outline, endsPair_rekeyed]
  | many => simp only [rekeyed, outline, endsPair_rekeyed]

namespace Document

/-- The check finds the same issues whatever is asked of the attributes of keys. -/
theorem issues_rekeyed (d : Document) : (d.rekeyed f).issues = d.issues := by
  have hterms : (d.find.map (.rekeyed f)).mapIdx (FindTerm.outline (d.find.map (.rekeyed f))) =
      d.find.mapIdx (FindTerm.outline d.find) := by
    apply List.ext_getElem
    · simp
    · intro index _ _
      simp only [List.getElem_mapIdx, List.getElem_map, FindTerm.outline_rekeyed]
  have hremarks : (d.rekeyed f).remarks = d.remarks := by
    simp only [remarks, rekeyed, List.isEmpty_map, List.length_map]
  rw [issues, issues, outline, outline, hremarks]
  simp only [rekeyed, hterms]

/-- So it passes or fails the same. -/
theorem validate_rekeyed (d : Document) : (d.rekeyed f).validate = d.validate := by
  rw [validate, validate, issues_rekeyed]

end Document

/-! #### The options that are there then -/

variable {p : OptionPlace → AttrOption → Prop}

/-- The option that stands in a place afterwards: another one if it is a key. -/
def AttrOption.rekeyedAt (o : AttrOption) : OptionPlace → AttrOption
  | .element => o
  | .key => { o with kind := f o }

theorem AttrSpec.everyOptionHere_rekeyed (s : AttrSpec) :
    (s.rekeyed f).EveryOptionHere p ↔
      s.EveryOptionHere fun place o => p place (o.rekeyedAt f place) := by
  match s with
  | .name _ | .wildcard | .option _ | .map (.attrs _) | .map (.keyed (.attr _) _)
  | .map (.keyed (.option _) _) => exact Iff.rfl

theorem AttrSpec.rekeyedPattern_eq_map (specs : List AttrSpec) :
    rekeyedPattern f specs = specs.map (rekeyed f) := by
  induction specs with
  | nil => rfl
  | cons spec rest ih => rw [rekeyedPattern, List.map_cons, ih]

theorem MapSpec.rekeyedEntries_eq_map (entries : List (String × MapTarget)) :
    rekeyedEntries f entries = entries.map fun entry => (entry.1, entry.2.rekeyed f) := by
  induction entries with
  | nil => rfl
  | cons entry rest ih => rw [rekeyedEntries, List.map_cons, ih]

theorem MapTarget.specs_rekeyed (target : MapTarget) :
    (target.rekeyed f).specs = target.specs.map (.rekeyed f) := by
  cases target with
  | pattern specs => exact AttrSpec.rekeyedPattern_eq_map f specs
  | recursion limit => rfl

theorem AttrSpec.everyOption_rekeyed (s : AttrSpec) :
    (s.rekeyed f).Every (EveryOptionHere p) ↔
      s.Every (EveryOptionHere fun place o => p place (o.rekeyedAt f place)) := by
  induction s using nestedInduction with
  | name attr => exact Iff.rfl
  | wildcard => exact Iff.rfl
  | option o => exact Iff.rfl
  | attrs entries ih =>
    rw [rekeyed, MapSpec.rekeyed, every_attrs, every_attrs, MapSpec.rekeyedEntries_eq_map]
    refine and_congr Iff.rfl ?_
    simp only [List.forall_mem_map, MapTarget.specs_rekeyed]
    exact forall₂_congr fun entry hentry => forall₂_congr (ih entry hentry)
  | keyed key selector ih =>
    have hhere := everyOptionHere_rekeyed f (p := p) (.map (.keyed key selector))
    rw [rekeyed, MapSpec.rekeyed] at hhere ⊢
    rw [every_keyed, every_keyed, hhere, rekeyedPattern_eq_map, List.forall_mem_map]
    exact and_congr_right fun _ => forall₂_congr ih

namespace Document

/-- The options of a document with other keys: its elements as before, and the other keys. -/
theorem everyOption_rekeyed (d : Document) :
    (d.rekeyed f).EveryOption p ↔
      d.EveryOption fun place o => p place (o.rekeyedAt f place) := by
  have hterm : ∀ request : Pull, .pull request ∈ (d.rekeyed f).find ↔
      ∃ before, .pull before ∈ d.find ∧
        request = { before with pattern := before.pattern.map (.rekeyed f) } := by
    intro request
    rw [rekeyed, List.mem_map]
    constructor
    · rintro ⟨t, hmem, ht⟩
      cases t with
      | pull before =>
        rw [FindTerm.rekeyed, AttrSpec.rekeyedPattern_eq_map] at ht
        cases ht
        exact ⟨before, hmem, rfl⟩
      | var _ | single | many => cases ht
    · rintro ⟨before, hmem, rfl⟩
      refine ⟨_, hmem, ?_⟩
      rw [FindTerm.rekeyed, AttrSpec.rekeyedPattern_eq_map]
  simp only [EveryOption, hterm]
  constructor
  · intro h before hmem spec hspec
    rw [← AttrSpec.everyOption_rekeyed]
    exact h _ ⟨before, hmem, rfl⟩ _ (List.mem_map_of_mem hspec)
  · rintro h _ ⟨before, hmem, rfl⟩
    rw [List.forall_mem_map]
    intro spec hspec
    rw [AttrSpec.everyOption_rekeyed]
    exact h before hmem spec hspec

end Document

end Rekeyed

/-! ### Documents that pass -/

/-- What the check asks of an option: its attribute is qualified, and it makes sense if it is an
element. -/
def AttrOption.PassesAt (place : OptionPlace) (o : AttrOption) : Prop :=
  isQualifiedAttr o.attr = true ∧ (place = .element → o.kind.WellFormed)

theorem AttrSpec.WellFormedHere.everyOptionHere {s : AttrSpec} (h : s.WellFormedHere) :
    s.EveryOptionHere AttrOption.PassesAt := by
  match s, h with
  | .name _, _ | .wildcard, _ | .map (.attrs _), _ | .map (.keyed (.attr _) _), _ => trivial
  | .option o, h => exact ⟨h.1, fun _ => h.2⟩
  | .map (.keyed (.option o) _), h => exact ⟨h.1, nofun⟩

namespace Document

theorem everyOption_passesAt {d : Document} (h : d.validate = .ok ()) :
    d.EveryOption AttrOption.PassesAt := by
  intro request hrequest spec hspec
  -- Terms are well formed at their indices, and that of the pull does not matter.
  obtain ⟨index, hindex⟩ := List.mem_iff_getElem?.mp hrequest
  obtain ⟨-, -, hpattern⟩ := ((validate_eq_ok_iff d).mp h).terms index _ hindex
  exact (hpattern spec hspec).imp fun _ => AttrSpec.WellFormedHere.everyOptionHere

/-- Where the check asks what it does, all options make sense exactly if the keys among them do. -/
theorem everyOption_wellFormed_iff {d : Document} (h : d.EveryOption AttrOption.PassesAt) :
    d.EveryOption (fun _ o => o.WellFormed) ↔
      d.EveryOption fun place o => place = .key → o.kind.WellFormed := by
  constructor
  · exact EveryOption.imp fun _ _ hwell _ => hwell.2
  · intro hkeys
    refine (h.and hkeys).imp ?_
    intro place o hboth
    obtain ⟨⟨hattr, helement⟩, hkey⟩ := hboth
    cases place with
    | element => exact ⟨hattr, helement rfl⟩
    | key => exact ⟨hattr, hkey rfl⟩

/-- In a document that passes every option has a qualified attribute, and those that are elements
make sense. Whether the keys do is left open: the document passes with any options in the place of
those of its keys, and then all its options make sense exactly if the new ones do. -/
theorem everyOption_of_validate {d : Document} (h : d.validate = .ok ()) :
    d.EveryOption AttrOption.PassesAt ∧
      (d.EveryOption (fun _ o => o.WellFormed) ↔
        d.EveryOption fun place o => place = .key → o.kind.WellFormed) ∧
      ∀ f : AttrOption → OptionKind, (d.rekeyed f).validate = .ok () ∧
        ((d.rekeyed f).EveryOption (fun _ o => o.WellFormed) ↔
          d.EveryOption fun place o => place = .key → (f o).WellFormed) := by
  refine ⟨everyOption_passesAt h, everyOption_wellFormed_iff (everyOption_passesAt h), ?_⟩
  intro f
  have hpasses : (d.rekeyed f).validate = .ok () := by rw [validate_rekeyed, h]
  refine ⟨hpasses, ?_⟩
  rw [everyOption_wellFormed_iff (everyOption_passesAt hpasses), everyOption_rekeyed]
  -- Of an element nothing is said on either side, so only keys have to be compared.
  constructor
  · refine EveryOption.imp ?_
    rintro place o hnew rfl
    exact hnew rfl
  · refine EveryOption.imp ?_
    rintro place o hnew rfl
    exact hnew rfl

/-- A pull with options in both places, one of them inside the selector of another. -/
def renamedKey : Document where
  find := [.pull ⟨[.limit "a/b" 2, .keyed (.option ⟨"a/c", .renamed "c"⟩) [.renamed "a/d" "d"]],
    "?e"⟩, .single]

/-- The document passes, and so it would with a key of any kind. -/
theorem renamedKey_options :
    renamedKey.validate = .ok () ∧ renamedKey.EveryOption (fun _ o => o.WellFormed) ∧
      (renamedKey.rekeyed fun _ => .limit 0).validate = .ok () := by
  have hpasses : renamedKey.validate = .ok () := rfl
  obtain ⟨-, hiff, hothers⟩ := everyOption_of_validate hpasses
  refine ⟨hpasses, hiff.mpr ?_, (hothers _).1⟩
  intro request hrequest
  simp only [renamedKey, List.mem_cons, FindTerm.pull.injEq, reduceCtorEq, List.not_mem_nil,
    or_false] at hrequest
  subst hrequest
  simp [AttrSpec.limit, AttrSpec.renamed, AttrSpec.keyed, AttrSpec.Every,
    AttrSpec.EveryOptionHere, MapKey.EveryOption, MapSpec.EveryInside, AttrSpec.EveryItem,
    OptionKind.WellFormed]

/-- A pull of one attribute, of which none of the values are wanted. -/
def zeroKey : Document where
  find := [.pull ⟨[.keyed (.option ⟨"a/b", .limit 0⟩) [.wildcard]], "?e"⟩, .single]

/-- The check passes a limit of zero where it is the key of a selector. -/
theorem zeroKey_passes :
    ofJson zeroKey.toJson = .ok zeroKey ∧ zeroKey.validate = .ok () ∧
      ¬ zeroKey.EveryOption fun _ o => o.WellFormed := by
  refine ⟨rfl, rfl, ?_⟩
  intro h
  have hspec := h _ List.mem_cons_self _ List.mem_cons_self
  have hkey : (⟨"a/b", .limit 0⟩ : AttrOption).WellFormed := hspec.1
  exact hkey.2 rfl

end Document

end DatalogClient
