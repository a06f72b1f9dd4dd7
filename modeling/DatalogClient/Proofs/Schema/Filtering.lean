import DatalogClient.Schema.Catalog
import Mathlib.Data.List.Basic

/-!
# What a filter lets pass

A filter asks for the sort of an entry, for its flags and for a text in it. With more sorts shown or
fewer flags demanded it lets the same entries pass, and perhaps more.

## Main definitions

* `SchemaFilter.SearchAdmits` — the search of a filter lets an entry pass
* `SchemaFilter.Wants` — a filter as a whole lets an entry pass
* `SchemaFilter.Narrows` — what one filter asks for besides what another one asks for

## Main results

* `SchemaFilter.apply_eq` — a filter keeps the entries that it wants, in order
* `SchemaFilter.Narrows.apply_sublist` — what is asked for besides only removes entries
-/

namespace DatalogClient

namespace SchemaFilter

variable {f g : SchemaFilter} {e : SchemaEntry}

/-- The entry is found by what the filter searches, or the filter searches nothing. -/
def SearchAdmits (f : SchemaFilter) (e : SchemaEntry) : Prop :=
  ∀ term, f.search = some term → finds term e = true

/-- The entry is of a sort that is shown, is unique or a component if that is demanded, and is found
by the search. -/
structure Wants (f : SchemaFilter) (e : SchemaEntry) : Prop where
  sort : f.showIdent = true ∧ e.isIdent = true ∨ f.showFunction = true ∧ e.isFunction = true ∨
    f.showAttribute = true ∧ e.isAttribute = true
  unique : f.onlyUnique = true → e.isUnique = true
  component : f.onlyComponents = true → e.isComponent = true
  search : f.SearchAdmits e

theorem admits_iff : f.admits e = true ↔ f.Wants e := by
  have hsort : f.shows e = true ↔ f.showIdent = true ∧ e.isIdent = true ∨
      f.showFunction = true ∧ e.isFunction = true ∨
      f.showAttribute = true ∧ e.isAttribute = true := by
    simp only [shows, Bool.or_eq_true, Bool.and_eq_true, or_assoc]
  have hflag : ∀ demanded there : Bool,
      (!demanded || there) = true ↔ (demanded = true → there = true) := by decide
  have hsearch : (f.search.all fun term => finds term e) = true ↔ f.SearchAdmits e := by
    rw [SearchAdmits]
    cases f.search <;> simp
  rw [admits, Bool.and_eq_true, Bool.and_eq_true, Bool.and_eq_true, hsort, hflag, hflag, hsearch]
  constructor
  · rintro ⟨⟨⟨sort, unique⟩, component⟩, search⟩
    exact { sort, unique, component, search }
  · intro h
    exact ⟨⟨⟨h.sort, h.unique⟩, h.component⟩, h.search⟩

instance (f : SchemaFilter) (e : SchemaEntry) : Decidable (f.Wants e) :=
  decidable_of_iff (f.admits e = true) admits_iff

/-- A filter keeps the entries that it wants, in order. -/
theorem apply_eq (f : SchemaFilter) (catalog : List SchemaEntry) :
    f.apply catalog = catalog.filter fun e => decide (f.Wants e) := by
  rw [apply]
  congr 1
  funext e
  rw [Bool.eq_iff_iff, admits_iff, decide_eq_true_iff]

/-- The first filter shows no sort that the second one does not show, and demands every flag that
the second one demands. Both search the same. -/
structure Narrows (f g : SchemaFilter) : Prop where
  showIdent : f.showIdent = true → g.showIdent = true
  showFunction : f.showFunction = true → g.showFunction = true
  showAttribute : f.showAttribute = true → g.showAttribute = true
  onlyUnique : g.onlyUnique = true → f.onlyUnique = true
  onlyComponents : g.onlyComponents = true → f.onlyComponents = true
  search : f.search = g.search

/-- What a filter wants, any filter that it narrows wants as well. -/
theorem Narrows.wants (h : f.Narrows g) (he : f.Wants e) : g.Wants e where
  sort := he.sort.imp (And.imp_left h.showIdent)
    (Or.imp (And.imp_left h.showFunction) (And.imp_left h.showAttribute))
  unique hg := he.unique (h.onlyUnique hg)
  component hg := he.component (h.onlyComponents hg)
  search := by
    rw [SearchAdmits, ← h.search]
    exact he.search

/-- To show a sort or no longer to demand a flag removes no entry, and keeps the order. -/
theorem Narrows.apply_sublist (h : f.Narrows g) (catalog : List SchemaEntry) :
    (f.apply catalog).Sublist (g.apply catalog) := by
  rw [apply_eq, apply_eq]
  refine List.monotone_filter_right catalog fun e he => ?_
  rw [decide_eq_true_iff] at he ⊢
  exact h.wants he

end SchemaFilter

end DatalogClient
