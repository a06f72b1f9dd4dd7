import DatalogClient.Proofs.Schema.Filtering
import DatalogClient.Proofs.Text.Sigmas
import Mathlib.Data.List.Infix

/-!
# What a search finds

A search compares a text and the fields of an entry, all of them in lower case. An entry that holds
the text as it stands is found for sure if the sigmas of the text are settled. If one is not, there
are entries that hold the text and are not found, since the sigma has one form where the text stands
alone and another one where it stands in the entry.

## Main definitions

* `SchemaEntry.Holds` — a text stands in one of the fields that are searched

## Main results

* `occursIn_iff` — texts that occur are infixes
* `SchemaEntry.Holds.found` — what holds a settled text is found
* `SchemaFilter.search_finds_iff` — for which texts a search finds all entries that hold them
* `SchemaFilter.roadMarkings_not_found` — an entry that holds a text and is not found
-/

namespace DatalogClient

open Text

theorem occursIn_iff {part whole : List Char} : occursIn part whole = true ↔ part <:+: whole := by
  induction whole with
  | nil => simp [occursIn, List.isEmpty_iff]
  | cons c rest ih =>
    rw [occursIn, Bool.or_eq_true, List.isPrefixOf_iff_prefix, ih, List.infix_cons_iff]

/-- The text stands in the namespace, the ident or the documentation of the entry. -/
def SchemaEntry.Holds (e : SchemaEntry) (text : String) : Prop :=
  ∃ field, (field = e.nameSpace ∨ field = e.ident ∨ e.doc = some field) ∧
    text.toList <:+: field.toList

namespace SchemaFilter

/-- An entry is found if one of its fields has the text, both in lower case. -/
theorem finds_iff {term : String} {e : SchemaEntry} :
    finds term e = true ↔ ∃ field, (field = e.nameSpace ∨ field = e.ident ∨ e.doc = some field) ∧
      lowercaseFrom [] (trim term).toList <:+: lowercaseFrom [] field.toList := by
  simp only [finds, lowercase, String.toList_ofList, Bool.or_eq_true, occursIn_iff,
    Option.any_eq_true]
  constructor
  · rintro ((h | ⟨doc, hdoc, h⟩) | h)
    · exact ⟨_, .inl rfl, h⟩
    · exact ⟨doc, .inr (.inr hdoc), h⟩
    · exact ⟨_, .inr (.inl rfl), h⟩
  · rintro ⟨field, rfl | rfl | hdoc, h⟩
    · exact .inl (.inl h)
    · exact .inr h
    · exact .inl (.inr ⟨field, hdoc, h⟩)

/-- A text that is not blank is searched as it is given. -/
theorem searchAdmits_withSearch_iff {term : String} {e : SchemaEntry} :
    (({} : SchemaFilter).withSearch term).SearchAdmits e ↔
      (trim term ≠ "" → finds term e = true) := by
  rw [SearchAdmits, withSearch]
  by_cases hblank : trim term = ""
  · simp [hblank]
  · simp [hblank]

end SchemaFilter

/-- What holds a settled text is found. -/
theorem SchemaEntry.Holds.found {e : SchemaEntry} {term : String} (h : e.Holds (trim term))
    (hterm : SigmasSettled (trim term).toList) : SchemaFilter.finds term e = true := by
  obtain ⟨field, hfield, before, after, heq⟩ := h
  refine SchemaFilter.finds_iff.mpr ⟨field, hfield, ?_⟩
  rw [← heq, List.append_assoc, lowercaseFrom_append, lowercaseFrom_append,
    lowercaseBetween_of_settled hterm, ← List.append_assoc]
  exact List.infix_append _ _ _

namespace SchemaFilter

/-- The search for a text finds every entry that holds the text, less the blanks at its ends, as it
stands, exactly if the sigmas of the text are settled. -/
theorem search_finds_iff (term : String) :
    (∀ e : SchemaEntry, e.Holds (trim term) →
        (({} : SchemaFilter).withSearch term).SearchAdmits e) ↔
      SigmasSettled (trim term).toList := by
  simp only [searchAdmits_withSearch_iff]
  constructor
  · intro h
    by_contra hopen
    have hterm : trim term ≠ "" := by
      intro hblank
      refine hopen fun before after heq => ?_
      simp [hblank] at heq
    obtain ⟨whole, hpart, hlower⟩ := exists_not_infix_of_not_settled hopen
    -- The entry holds the text in its namespace, and has no other text.
    obtain ⟨e, hnameSpace, hident, hdoc⟩ : ∃ e : SchemaEntry,
        e.nameSpace = String.ofList whole ∧ e.ident = "" ∧ e.doc = none :=
      ⟨{ ident := "", nameSpace := String.ofList whole }, rfl, rfl, rfl⟩
    have hholds : e.Holds (trim term) :=
      ⟨String.ofList whole, .inl hnameSpace.symm, by rwa [String.toList_ofList]⟩
    obtain ⟨field, hfield, hfound⟩ := finds_iff.mp (h e hholds hterm)
    rw [hnameSpace, hident, hdoc] at hfield
    rcases hfield with rfl | rfl | hnone
    · rw [String.toList_ofList] at hfound
      exact hlower hfound
    · -- Nothing but the empty text occurs in the empty one.
      rw [String.toList_empty, lowercaseFrom, List.infix_nil] at hfound
      rw [hfound] at hlower
      exact hlower List.nil_infix
    · cases hnone
  · exact fun hterm e hholds _ => hholds.found hterm

/-- An attribute whose documentation is a longer word. -/
def roadMarkings : SchemaEntry :=
  { ident := "road/markings", nameSpace := "road", isAttribute := true,
    doc := some "ΟΔΟΣΗΜΑΝΣΗ" }

/-- The word that it begins with ends by a sigma, and is not found. -/
theorem roadMarkings_not_found :
    trim "ΟΔΟΣ" ≠ "" ∧ roadMarkings.Holds (trim "ΟΔΟΣ") ∧
      ¬ (({} : SchemaFilter).withSearch "ΟΔΟΣ").SearchAdmits roadMarkings := by
  have htrim : trim "ΟΔΟΣ" = "ΟΔΟΣ" := by decide +kernel
  have hfinds : finds "ΟΔΟΣ" roadMarkings = false := by decide +kernel
  refine ⟨by decide +kernel, ⟨"ΟΔΟΣΗΜΑΝΣΗ", .inr (.inr rfl), ?_⟩, ?_⟩
  · rw [htrim]
    exact ⟨[], "ΗΜΑΝΣΗ".toList, by decide +kernel⟩
  · rw [searchAdmits_withSearch_iff, hfinds]
    exact fun h => Bool.noConfusion (h (by decide +kernel))

end SchemaFilter

end DatalogClient
