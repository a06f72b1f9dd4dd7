import DatalogClient.Proofs.Document.WellFormed
import DatalogClient.Proofs.Pull.Canonical

/-!
# Specs that are read otherwise than they were written

A spec need not be read back to make as much sense as before. Of an option only what is checked
must come back, and that it does. A spec loses its faults in three ways only: the asterisk becomes
the wildcard, attributes of the names of a selector become a selector, and entries that are
written over disappear.

## Main definitions

* `AttrSpec.Settled` — specs that have none of these faults to lose
* `AttrSpec.KeepsSense` — what is read of a spec makes sense exactly if the spec does, but for these

## Main results

* `AttrSpec.wellFormed_reread` — a spec makes sense exactly if what is read of it does and it is
  settled
* `Pull.wellFormed_reread` — the same of pulls
-/

namespace DatalogClient

open Json (Reads)
open Spelling
open Value (marksKind)

/-- What holds of the values of one list exactly if more holds of those of another, value by value,
holds of all values so. -/
theorem forall_mem_iff_of_forall₂ {α β : Type} {R : α → β → Prop} {p r : α → Prop} {q : β → Prop}
    {items : List α} {values : List β} (h : List.Forall₂ R items values)
    (hR : ∀ a ∈ items, ∀ b ∈ values, R a b → (p a ↔ q b ∧ r a)) :
    (∀ a ∈ items, p a) ↔ (∀ b ∈ values, q b) ∧ ∀ a ∈ items, r a := by
  induction h with
  | nil => simp
  | cons hab hrest ih =>
    have hhead := hR _ List.mem_cons_self _ List.mem_cons_self hab
    have htail := ih fun a ha b hb =>
      hR a (List.mem_cons_of_mem _ ha) b (List.mem_cons_of_mem _ hb)
    rw [List.forall_mem_cons, List.forall_mem_cons, List.forall_mem_cons, hhead, htail]
    exact and_and_and_comm

/-! ### Options, keys and targets -/

/-- Whether an option makes sense does not change: a default may, but it is not looked at. -/
theorem OptionKind.wellFormed_reread {kind read : OptionKind} {value : Value}
    (hvalue : Value.ofJson? kind.argument = some value) (h : of kind.label value = .ok read) :
    kind.WellFormed ↔ read.WellFormed := by
  by_cases hkind : kind.Canonical marksKind
  · obtain ⟨value', hvalue', hback⟩ := (of_argument_iff kind).mpr hkind
    rw [hvalue, Option.some_inj] at hvalue'
    rw [← hvalue', h, Except.ok.injEq] at hback
    rw [hback]
  · cases kind with
    | renamed name => exact absurd trivial hkind
    | limit count =>
      -- A limit beyond the signed words is no limit when it is read.
      rw [Canonical] at hkind
      rw [argument, Json.int, Value.ofJson?, Value.ofInt, if_neg fun hrange => hkind hrange.2,
        Option.some_inj] at hvalue
      rw [← hvalue, of_eq_ok_iff] at h
      simp [label] at h
    | fallback argument =>
      rw [label, of_default, Except.ok.injEq] at h
      rw [← h]
      exact Iff.rfl

theorem AttrOption.wellFormed_reread {o read : AttrOption}
    (h : ofItems? [.str o.attr, .str o.kind.label, o.kind.argument] = some read) :
    read.attr = o.attr ∧ (o.kind.WellFormed ↔ read.kind.WellFormed) := by
  obtain ⟨label, argument, hitems, value, hvalue, hkind⟩ := ofItems?_eq_some_iff.mp h
  simp only [List.cons.injEq, Json.str.injEq, and_true] at hitems
  obtain ⟨hattr, rfl, rfl⟩ := hitems
  exact ⟨hattr.symm, OptionKind.wellFormed_reread hvalue hkind⟩

theorem MapKey.name_reread {key read : MapKey} (h : ofJson? key.toJson = some read) :
    read.name = key.name := by
  cases key with
  | attr name =>
    obtain rfl := Option.some.inj h
    rfl
  | option o =>
    rw [toJson, AttrOption.toJson, ofJson?, Option.map_eq_some_iff] at h
    obtain ⟨o', ho', rfl⟩ := h
    exact (AttrOption.wellFormed_reread ho').1

/-- A target is read as a target of the same kind, and a pattern spec by spec. -/
theorem MapTarget.wellFormed_reread {target read : MapTarget}
    (h : MapTarget.read true target.toJson.collapse = some read) :
    (target.WellFormed ↔ read.WellFormed) ∧
      List.Forall₂ (fun spec other => AttrSpec.read true spec.toJson.collapse = some other)
        target.specs read.specs := by
  cases target with
  | pattern specs =>
    rw [toJson, AttrSpec.patternToJson_eq_map, Json.collapse, Json.collapseItems_eq_map,
      List.map_map, MapTarget.read, Option.map_eq_some_iff] at h
    obtain ⟨others, hothers, rfl⟩ := h
    rw [AttrSpec.readPattern_eq_some_iff, List.forall₂_map_left_iff] at hothers
    refine ⟨?_, hothers⟩
    rw [WellFormed, WellFormed, ← List.length_pos_iff, ← List.length_pos_iff, hothers.length_eq]
  | recursion limit =>
    have hback : MapTarget.read true (recursion limit).toJson.collapse =
        some (recursion limit) := by
      rw [read_toJson_iff]
      simp [specs]
    rw [hback, Option.some_inj] at h
    rw [← h]
    exact ⟨Iff.rfl, .nil⟩

/-! ### Specs -/

/-- An entry makes sense, at any depth. -/
def MapSpec.EntryWellFormed (entry : String × MapTarget) : Prop :=
  isQualifiedAttr entry.1 = true ∧ entry.2.WellFormed ∧ ∀ spec ∈ entry.2.specs, spec.WellFormed

namespace AttrSpec

theorem wellFormed_attrs_iff (entries : List (String × MapTarget)) :
    (AttrSpec.map (.attrs entries)).WellFormed ↔
      entries ≠ [] ∧ ∀ entry ∈ entries, MapSpec.EntryWellFormed entry := by
  rw [WellFormed, every_attrs, WellFormedHere, and_assoc, ← forall₂_and]
  simp only [MapSpec.EntryWellFormed, and_assoc]
  rfl

/-- The condition on a spec, apart from the specs inside it: it has no fault that reading would
take from it. -/
def SettledHere : AttrSpec → Prop
  | .name attr => attr ≠ "*"
  | .wildcard => True
  | .option _ => True
  | .map (.attrs entries) =>
    ¬ ((Json.latest entries).map (·.1)).Perm ["key", "selector"] ∧
      ∀ entry ∈ entries, entry ∈ Json.latest entries ∨
        entry.2.WellFormed ∧ ∀ spec ∈ entry.2.specs, spec.WellFormed
  | .map (.keyed _ _) => True

/-- No name is the asterisk, the names of entries are not just those of a selector, and whatever is
written over makes sense, at every depth. -/
def Settled (s : AttrSpec) : Prop := s.Every SettledHere

theorem not_isQualifiedAttr_key : ¬ isQualifiedAttr "key" = true := by decide

theorem not_perm_of_wellFormed {entries : List (String × MapTarget)}
    (h : ∀ entry ∈ entries, MapSpec.EntryWellFormed entry) :
    ¬ ((Json.latest entries).map (·.1)).Perm ["key", "selector"] := by
  intro hperm
  have hkey : "key" ∈ entries.map (·.1) := by
    rw [← Json.mem_map_fst_latest, hperm.mem_iff]
    exact List.mem_cons_self
  obtain ⟨entry, hentry, hname⟩ := List.mem_map.mp hkey
  have hqualified := (h entry hentry).1
  rw [hname] at hqualified
  exact not_isQualifiedAttr_key hqualified

/-- What makes sense has no faults to lose. -/
theorem settled_of_wellFormed {s : AttrSpec} (h : s.WellFormed) : s.Settled := by
  induction s using nestedInduction with
  | name attr =>
    rw [WellFormed, Every, WellFormedHere] at h
    rw [Settled, Every, SettledHere]
    rintro rfl
    exact absurd h (by decide)
  | wildcard => trivial
  | option o => trivial
  | attrs entries ih =>
    obtain ⟨-, hentries⟩ := (wellFormed_attrs_iff entries).mp h
    rw [Settled, every_attrs, SettledHere]
    refine ⟨⟨not_perm_of_wellFormed hentries, ?_⟩, ?_⟩
    · exact fun entry hentry => .inr (hentries entry hentry).2
    · intro entry hentry spec hspec
      exact ih entry hentry spec hspec ((hentries entry hentry).2.2 spec hspec)
  | keyed key selector ih =>
    rw [WellFormed, every_keyed] at h
    rw [Settled, every_keyed]
    exact ⟨trivial, fun spec hspec => ih spec hspec (h.2 spec hspec)⟩

/-- Whatever is read of the spec, in either way, the spec makes sense exactly if that does and the
spec has no fault to lose. -/
def KeepsSense (s : AttrSpec) : Prop :=
  ∀ ⦃once : Bool⦄ ⦃other : AttrSpec⦄, read once s.toJson.collapse = some other →
    (s.WellFormed ↔ other.WellFormed ∧ s.Settled)

theorem keepsSense_name (attr : String) : (name attr).KeepsSense := by
  intro once other h
  rw [toJson, Json.collapse, read, ofText, Option.some_inj] at h
  rw [Settled, Every, SettledHere, WellFormed, Every, WellFormedHere]
  split_ifs at h with hname
  · subst hname
    exact iff_of_false (by decide) fun h => h.2 rfl
  · rw [← h, and_iff_left hname]
    exact Iff.rfl

theorem keepsSense_wildcard : wildcard.KeepsSense := by
  intro once other h
  obtain rfl := Option.some.inj h
  exact iff_of_true trivial ⟨trivial, trivial⟩

theorem keepsSense_option (o : AttrOption) : (option o).KeepsSense := by
  intro once other h
  rw [read_option_toJson, Option.map_eq_some_iff] at h
  obtain ⟨o', ho', rfl⟩ := h
  obtain ⟨hattr, hkind⟩ := AttrOption.wellFormed_reread ho'
  have hsettled : (option o).Settled := trivial
  rw [and_iff_left hsettled, WellFormed, WellFormed, Every, Every, WellFormedHere,
    WellFormedHere, hattr, hkind]

section Entries

variable {entries others : List (String × MapTarget)}

/-- Entries that are kept make sense exactly if what is read of them does and the specs that they
hold have no fault to lose, provided this is so of each of these specs. -/
theorem entries_reread
    (h : List.Forall₂ (fun entry other => entry.1 = other.1 ∧
      MapTarget.read true entry.2.toJson.collapse = some other.2) entries others)
    (ih : ∀ entry ∈ entries, ∀ spec ∈ entry.2.specs, spec.KeepsSense) :
    (∀ entry ∈ entries, MapSpec.EntryWellFormed entry) ↔
      (∀ other ∈ others, MapSpec.EntryWellFormed other) ∧
        ∀ entry ∈ entries, ∀ spec ∈ entry.2.specs, spec.Settled := by
  refine forall_mem_iff_of_forall₂ h ?_
  intro entry hentry other _ hread
  obtain ⟨hname, htarget⟩ := hread
  obtain ⟨hformed, hspecs⟩ := MapTarget.wellFormed_reread htarget
  have hinside := forall_mem_iff_of_forall₂ hspecs fun spec hspec other _ hother =>
    ih entry hentry spec hspec hother
  rw [MapSpec.EntryWellFormed, MapSpec.EntryWellFormed, hname, hformed, hinside, and_assoc,
    and_assoc]

/-- Entries make sense if those that are kept do and the targets that are written over do. -/
theorem wellFormed_of_latest
    (hlatest : ∀ entry ∈ Json.latest entries, MapSpec.EntryWellFormed entry)
    (hlost : ∀ entry ∈ entries, entry ∈ Json.latest entries ∨
      entry.2.WellFormed ∧ ∀ spec ∈ entry.2.specs, spec.WellFormed) :
    ∀ entry ∈ entries, MapSpec.EntryWellFormed entry := by
  intro entry hentry
  rcases hlost entry hentry with hkept | hformed
  · exact hlatest entry hkept
  · -- Of an entry that is written over the name is kept, with another target.
    have hname := Json.mem_map_fst_latest.mpr (List.mem_map_of_mem (f := Prod.fst) hentry)
    obtain ⟨kept, hmem, hsame⟩ := List.mem_map.mp hname
    have hqualified := (hlatest kept hmem).1
    rw [hsame] at hqualified
    exact ⟨hqualified, hformed⟩

/-- Entries that are read as entries make sense exactly if these do and no fault was lost. -/
theorem attrs_reread
    (hread : List.Forall₂ (fun entry other => entry.1 = other.1 ∧
      MapTarget.read true entry.2.toJson.collapse = some other.2) (Json.latest entries) others)
    (ih : ∀ entry ∈ entries, ∀ spec ∈ entry.2.specs, spec.KeepsSense) :
    (map (.attrs entries)).WellFormed ↔
      (map (.attrs others)).WellFormed ∧ (map (.attrs entries)).Settled := by
  have hkept := entries_reread hread fun entry hentry =>
    ih entry (Json.mem_of_mem_latest hentry)
  have hempty : others ≠ [] ↔ entries ≠ [] := by
    rw [← List.length_pos_iff, ← hread.length_eq, List.length_pos_iff, Ne,
      Json.latest_eq_nil_iff]
  constructor
  · intro h
    obtain ⟨hne, hentries⟩ := (wellFormed_attrs_iff entries).mp h
    have hothers := (hkept.mp fun entry hentry =>
      hentries entry (Json.mem_of_mem_latest hentry)).1
    exact ⟨(wellFormed_attrs_iff others).mpr ⟨hempty.mpr hne, hothers⟩, settled_of_wellFormed h⟩
  · intro h
    obtain ⟨hothers, hsettled⟩ := h
    rw [wellFormed_attrs_iff, hempty] at hothers
    rw [Settled, every_attrs, SettledHere] at hsettled
    have hlatest := hkept.mpr ⟨hothers.2, fun entry hentry =>
      hsettled.2 entry (Json.mem_of_mem_latest hentry)⟩
    rw [wellFormed_attrs_iff]
    exact ⟨hothers.1, wellFormed_of_latest hlatest hsettled.1.2⟩

theorem keepsSense_attrs (ih : ∀ entry ∈ entries, ∀ spec ∈ entry.2.specs, spec.KeepsSense) :
    (map (.attrs entries)).KeepsSense := by
  intro once other h
  rw [read_attrs_toJson, Option.map_eq_some_iff] at h
  obtain ⟨spec, hspec, rfl⟩ := h
  cases spec with
  | keyed key selector =>
    -- The names are those of a selector, and these are no names of attributes.
    have hperm : ((Json.latest entries).map (·.1)).Perm ["key", "selector"] := by
      simpa only [List.map_map, Function.comp_def] using (MapSpec.assemble_eq_keyed_iff.mp hspec).1
    rw [Settled, every_attrs, SettledHere, wellFormed_attrs_iff]
    exact iff_of_false (fun h => not_perm_of_wellFormed h.2 hperm) fun h => h.2.1.1 hperm
  | attrs others =>
    obtain ⟨-, hread⟩ := MapSpec.assemble_eq_attrs_iff.mp hspec
    exact attrs_reread (List.forall₂_map_left_iff.mp hread) ih

end Entries

theorem keepsSense_keyed {key : MapKey} {selector : List AttrSpec}
    (ih : ∀ spec ∈ selector, spec.KeepsSense) : (map (.keyed key selector)).KeepsSense := by
  intro once other h
  have hsettled : (map (.keyed key selector)).Settled ↔ ∀ spec ∈ selector, spec.Settled := by
    rw [Settled, every_keyed, SettledHere, true_and]
    rfl
  rw [collapse_keyed, read_obj (by simp), Option.map_eq_some_iff] at h
  obtain ⟨spec, hspec, rfl⟩ := h
  cases spec with
  | attrs others => exact absurd (List.Perm.refl _) (MapSpec.assemble_eq_attrs_iff.mp hspec).1
  | keyed key' selector' =>
    obtain ⟨-, ⟨k, hk, hkey⟩, v, hv, hselector⟩ := MapSpec.assemble_eq_keyed_iff.mp hspec
    simp only [Json.lookup_cons, String.reduceEq, if_true, if_false, Option.some.injEq] at hk hv
    subst hk hv
    rw [Json.collapse_eq_self key.distinct_toJson] at hkey
    obtain ⟨hformed, hspecs⟩ := MapTarget.wellFormed_reread hselector
    rw [MapTarget.WellFormed, MapTarget.WellFormed] at hformed
    have hinside := forall_mem_iff_of_forall₂ hspecs fun spec hspec other _ hother =>
      ih spec hspec hother
    rw [hsettled, WellFormed, WellFormed, every_keyed, every_keyed, WellFormedHere,
      WellFormedHere, MapKey.name_reread hkey, hformed]
    exact (and_congr_right fun _ => hinside).trans and_assoc.symm

theorem keepsSense (s : AttrSpec) : s.KeepsSense := by
  induction s using nestedInduction with
  | name attr => exact keepsSense_name attr
  | wildcard => exact keepsSense_wildcard
  | option o => exact keepsSense_option o
  | attrs entries ih => exact keepsSense_attrs ih
  | keyed key selector ih => exact keepsSense_keyed ih

/-- A spec makes sense exactly if what is read of it makes sense and it has no fault to lose. -/
theorem wellFormed_reread {once : Bool} {s other : AttrSpec}
    (h : read once s.toJson.collapse = some other) :
    s.WellFormed ↔ other.WellFormed ∧ s.Settled :=
  s.keepsSense h

end AttrSpec

/-! ### Pulls -/

namespace Pull

/-- The specs of the pattern have no fault that reading would take from them. -/
def Settled (p : Pull) : Prop := ∀ spec ∈ p.pattern, spec.Settled

theorem settled_of_wellFormed {p : Pull} (h : p.WellFormed) : p.Settled :=
  fun spec hspec => AttrSpec.settled_of_wellFormed (h.2.2 spec hspec)

/-- A pull makes sense exactly if what is read of it makes sense and it has no fault to lose. -/
theorem wellFormed_reread {p other : Pull} (h : Reads decode p.toJson.collapse other) :
    p.WellFormed ↔ other.WellFormed ∧ p.Settled := by
  rw [collapse_toJson, decode,
    Json.Record.reads_pair_iff (r := record) rfl (by decide) rfl fun _ => rfl] at h
  obtain ⟨pattern, entity, hpattern, hentity, hbuild⟩ := h
  obtain rfl := Except.ok.inj hbuild
  obtain rfl := Json.str.inj (Json.reads_text_iff.mp hentity)
  obtain ⟨_, ⟨⟩, hspecs⟩ := Json.reads_each_iff.mp hpattern
  simp only [List.forall₂_map_left_iff, AttrSpec.decode, Json.reads_inSomeForm_iff] at hspecs
  have hempty : p.pattern ≠ [] ↔ pattern ≠ [] := by
    rw [← List.length_pos_iff, hspecs.length_eq, List.length_pos_iff]
  rw [WellFormed, WellFormed, Settled, hempty, forall_mem_iff_of_forall₂ hspecs
    fun spec _ other _ => AttrSpec.wellFormed_reread, and_assoc, and_assoc]

end Pull

end DatalogClient
