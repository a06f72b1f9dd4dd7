import DatalogClient.Program.Listing
import DatalogClient.Proofs.Schema.Filtering
import DatalogClient.Proofs.Text.ByteOrder
import Mathlib.Data.List.Induction
import Mathlib.Data.List.Perm.Basic
import Mathlib.Data.List.Sort

/-!
# Entries under their namespaces

Some entries are arranged in groups if each group has a namespace and all the entries of it, in
their order, and the namespaces ascend. There is one arrangement of any entries. It is found by
putting one entry after the other at the end of its group, and it holds each entry as often as the
entries do. So a listing neither loses nor repeats what the filter wants.

## Main definitions

* `Arranges` — groups that are the arrangement of some entries
* `place` — a further entry in an arrangement

## Main results

* `Arranges.eq`, `Arranges.perm` — the arrangement is unique and holds what it arranges
* `Arranges.place`, `arranges_foldl` — a further entry is placed, and so all of them one by one
* `arranges_groupByNamespace`, `groupByNamespace_eq_foldl` — the groups are that arrangement
* `SchemaFilter.listed_once` — a schema is listed without loss and without repetition
-/

namespace DatalogClient

variable {entries : List SchemaEntry} {e : SchemaEntry} {name : String}
variable {groups rest : List (String × List SchemaEntry)} {group : List SchemaEntry}

/-! ### Arrangements -/

/-- The namespaces of the groups ascend, each group has all entries of its namespace in their order
and has at least one, and each entry has a group. -/
structure Arranges (groups : List (String × List SchemaEntry)) (entries : List SchemaEntry) :
    Prop where
  ascending : groups.Pairwise fun a b => a.1 < b.1
  group : ∀ g ∈ groups, g.2 = entries.filter fun e => e.nameSpace = g.1
  nonempty : ∀ g ∈ groups, g.2 ≠ []
  complete : ∀ e ∈ entries, ∃ g ∈ groups, g.1 = e.nameSpace

theorem arranges_nil : Arranges [] entries ↔ entries = [] := by
  constructor
  · intro h
    refine List.eq_nil_iff_forall_not_mem.mpr fun e he => ?_
    obtain ⟨g, hg, -⟩ := h.complete e he
    exact List.not_mem_nil hg
  · rintro rfl
    exact ⟨.nil, by simp, by simp, by simp⟩

/-- The entries of a greater namespace are the same with and without those of the first one. -/
theorem filter_filter_of_lt {first later : String} (h : first < later) :
    (entries.filter fun e => e.nameSpace ≠ first).filter (fun e => e.nameSpace = later) =
      entries.filter fun e => e.nameSpace = later := by
  rw [List.filter_filter]
  refine List.filter_congr fun e _ => ?_
  have hne : e.nameSpace = later → e.nameSpace ≠ first := by
    rintro he rfl
    exact String.lt_irrefl _ (he ▸ h)
  simpa using hne

/-- The first group has the entries of its namespace, and the further groups arrange the others. -/
theorem arranges_cons : Arranges ((name, group) :: rest) entries ↔
    group ≠ [] ∧ group = entries.filter (fun e => e.nameSpace = name) ∧
      (∀ g ∈ rest, name < g.1) ∧ Arranges rest (entries.filter fun e => e.nameSpace ≠ name) := by
  constructor
  · intro h
    obtain ⟨hlt, hrest⟩ := List.pairwise_cons.mp h.ascending
    refine ⟨h.nonempty _ List.mem_cons_self, h.group _ List.mem_cons_self, hlt, hrest, ?_, ?_, ?_⟩
    · intro g hg
      rw [filter_filter_of_lt (hlt g hg)]
      exact h.group g (List.mem_cons_of_mem _ hg)
    · exact fun g hg => h.nonempty g (List.mem_cons_of_mem _ hg)
    · intro e he
      rw [List.mem_filter, decide_eq_true_iff] at he
      obtain ⟨g, hg, hname⟩ := h.complete e he.1
      rcases List.mem_cons.mp hg with rfl | hg
      · exact absurd hname.symm he.2
      · exact ⟨g, hg, hname⟩
  · rintro ⟨hne, hgroup, hlt, h⟩
    refine ⟨List.pairwise_cons.mpr ⟨hlt, h.ascending⟩, ?_, ?_, ?_⟩
    · rintro g hg
      rcases List.mem_cons.mp hg with rfl | hg
      · exact hgroup
      · rw [h.group g hg, filter_filter_of_lt (hlt g hg)]
    · rintro g hg
      rcases List.mem_cons.mp hg with rfl | hg
      · exact hne
      · exact h.nonempty g hg
    · intro e he
      by_cases hname : e.nameSpace = name
      · exact ⟨_, List.mem_cons_self, hname.symm⟩
      · obtain ⟨g, hg, heq⟩ := h.complete e (List.mem_filter.mpr ⟨he, by simpa using hname⟩)
        exact ⟨g, List.mem_cons_of_mem _ hg, heq⟩

namespace Arranges

/-- Each group has an entry of its namespace. -/
theorem exists_of_mem (h : Arranges groups entries) {g : String × List SchemaEntry}
    (hg : g ∈ groups) : ∃ e ∈ entries, e.nameSpace = g.1 := by
  obtain ⟨e, he⟩ := List.exists_mem_of_ne_nil _ (h.nonempty g hg)
  rw [h.group g hg, List.mem_filter, decide_eq_true_iff] at he
  exact ⟨e, he⟩

/-- The groups together hold each entry as often as it is there. -/
theorem perm (h : Arranges groups entries) : (groups.flatMap Prod.snd).Perm entries := by
  induction groups generalizing entries with
  | nil => rw [arranges_nil.mp h, List.flatMap_nil]
  | cons g rest ih =>
    obtain ⟨-, hgroup, -, hrest⟩ := arranges_cons.mp h
    -- The first group takes the entries of its namespace from the others.
    have hsplit := List.filter_append_perm (fun e => decide (e.nameSpace = g.1)) entries
    simp only [← decide_not] at hsplit
    rw [List.flatMap_cons, hgroup]
    exact ((ih hrest).append_left _).trans hsplit

/-- There is one arrangement. -/
theorem eq {others : List (String × List SchemaEntry)} (h : Arranges groups entries)
    (hothers : Arranges others entries) : groups = others := by
  -- The names tell what the groups hold, and the entries tell the names.
  have heq : ∀ {gs : List (String × List SchemaEntry)}, Arranges gs entries →
      gs = (gs.map Prod.fst).map fun name =>
        (name, entries.filter fun e => e.nameSpace = name) := by
    intro gs hgs
    rw [List.map_map]
    refine (List.map_id gs).symm.trans (List.map_congr_left fun g hg => ?_)
    exact Prod.ext rfl (hgs.group g hg)
  have hmem : ∀ {gs : List (String × List SchemaEntry)}, Arranges gs entries → ∀ name,
      name ∈ gs.map Prod.fst ↔ ∃ e ∈ entries, e.nameSpace = name := by
    intro gs hgs name
    rw [List.mem_map]
    constructor
    · rintro ⟨g, hg, rfl⟩
      exact hgs.exists_of_mem hg
    · rintro ⟨e, he, rfl⟩
      exact hgs.complete e he
  rw [heq h, heq hothers]
  congr 1
  refine List.Pairwise.eq_of_mem_iff (List.pairwise_map.mpr h.ascending)
    (List.pairwise_map.mpr hothers.ascending) fun name => ?_
  rw [hmem h, hmem hothers]

end Arranges

/-! ### The groups of a catalog -/

theorem nodup_eraseDups (names : List String) : names.eraseDups.Nodup := by
  match names with
  | [] => simp
  | name :: rest =>
    -- What is left of the rest is without the first name, and no longer than the rest.
    rw [List.eraseDups_cons, List.nodup_cons, List.mem_eraseDups, List.mem_filter]
    refine ⟨by simp, nodup_eraseDups _⟩
termination_by names.length
decreasing_by exact Nat.lt_succ_of_le (List.length_filter_le _ _)

theorem pairwise_namespacesOf (entries : List SchemaEntry) :
    (namespacesOf entries).Pairwise (· < ·) := by
  have htrans : ∀ a b c : String, decide (a ≤ b) = true → decide (b ≤ c) = true →
      decide (a ≤ c) = true := by
    intro a b c hab hbc
    rw [decide_eq_true_iff] at hab hbc ⊢
    exact String.le_trans hab hbc
  have htotal : ∀ a b : String, (decide (a ≤ b) || decide (b ≤ a)) = true := by
    intro a b
    simpa using String.le_total a b
  have hle : (namespacesOf entries).Pairwise fun a b => a ≤ b :=
    (List.pairwise_mergeSort htrans htotal _).imp decide_eq_true_iff.mp
  have hne : (namespacesOf entries).Pairwise (· ≠ ·) :=
    (List.mergeSort_perm _ _).nodup_iff.mpr (nodup_eraseDups _)
  exact (hle.and hne).imp fun h => Std.lt_of_le_of_ne h.1 h.2

theorem mem_namespacesOf : name ∈ namespacesOf entries ↔ ∃ e ∈ entries, e.nameSpace = name := by
  rw [namespacesOf, (List.mergeSort_perm _ _).mem_iff, List.mem_eraseDups, List.mem_map]

/-- The groups of a catalog are its arrangement. -/
theorem arranges_groupByNamespace (entries : List SchemaEntry) :
    Arranges (groupByNamespace entries) entries where
  ascending := List.pairwise_map.mpr (pairwise_namespacesOf entries)
  group g hg := by
    obtain ⟨name, -, rfl⟩ := List.mem_map.mp hg
    rfl
  nonempty g hg := by
    obtain ⟨name, hname, rfl⟩ := List.mem_map.mp hg
    obtain ⟨e, he, heq⟩ := mem_namespacesOf.mp hname
    exact List.ne_nil_of_mem (List.mem_filter.mpr ⟨he, decide_eq_true heq⟩)
  complete e he := ⟨_, List.mem_map_of_mem (mem_namespacesOf.mpr ⟨e, he, rfl⟩), rfl⟩

/-! ### One entry after the other -/

/-- The entry at the end of the group of its namespace, which is opened if it is not there. -/
def place (e : SchemaEntry) :
    List (String × List SchemaEntry) → List (String × List SchemaEntry)
  | [] => [(e.nameSpace, [e])]
  | (name, group) :: rest =>
    if e.nameSpace < name then (e.nameSpace, [e]) :: (name, group) :: rest
    else if e.nameSpace = name then (name, group ++ [e]) :: rest
    else (name, group) :: place e rest

/-- An entry whose namespace is less than that of any group opens a group before them. -/
theorem Arranges.opened (h : Arranges groups entries) {e : SchemaEntry}
    (hless : ∀ g ∈ groups, e.nameSpace < g.1) :
    Arranges ((e.nameSpace, [e]) :: groups) (entries ++ [e]) := by
  have hnew : ∀ e' ∈ entries, e'.nameSpace ≠ e.nameSpace := by
    intro e' he' heq
    obtain ⟨g, hg, hname⟩ := h.complete e' he'
    exact String.lt_irrefl _ (heq ▸ hname ▸ hless g hg)
  have hnone : entries.filter (fun e' => e'.nameSpace = e.nameSpace) = [] :=
    List.filter_eq_nil_iff.mpr (by simpa using hnew)
  have hall : entries.filter (fun e' => e'.nameSpace ≠ e.nameSpace) = entries :=
    List.filter_eq_self.mpr (by simpa using hnew)
  rw [arranges_cons, List.filter_append, List.filter_append, hnone, hall]
  exact ⟨by simp, by simp, hless, by simpa using h⟩

/-- If the entry is placed, it stands at the end of what is arranged. -/
theorem Arranges.place (h : Arranges groups entries) (e : SchemaEntry) :
    Arranges (place e groups) (entries ++ [e]) := by
  induction groups generalizing entries with
  | nil => exact h.opened (by simp)
  | cons g rest ih =>
    obtain ⟨name, group⟩ := g
    obtain ⟨hne, hgroup, hlt, hrest⟩ := arranges_cons.mp h
    rw [DatalogClient.place]
    split
    next hbefore =>
      refine h.opened fun g hg => ?_
      rcases List.mem_cons.mp hg with rfl | hg
      · exact hbefore
      · exact String.lt_trans hbefore (hlt g hg)
    next hbefore =>
      split
      next heq =>
        -- The entry comes last in the first group, and the further groups are as before.
        rw [arranges_cons, List.filter_append, List.filter_append, ← hgroup]
        exact ⟨by simp, by simp [heq], hlt, by simpa [heq] using hrest⟩
      next hother =>
        -- The entry is placed in the further groups, whose namespaces stay behind the first one.
        have hafter : name < e.nameSpace :=
          Std.lt_of_le_of_ne (String.not_lt.mp hbefore) (Ne.symm hother)
        have hplaced := ih hrest
        rw [arranges_cons, List.filter_append, List.filter_append, ← hgroup]
        refine ⟨hne, by simp [hother], fun g hg => ?_, by simpa [hother] using hplaced⟩
        obtain ⟨e', he', hname⟩ := hplaced.exists_of_mem hg
        rw [← hname]
        rcases List.mem_append.mp he' with he' | he'
        · obtain ⟨g', hg', hname'⟩ := hrest.complete e' he'
          exact hname' ▸ hlt g' hg'
        · rw [List.mem_singleton.mp he']
          exact hafter

/-- All entries placed one by one are arranged. -/
theorem arranges_foldl (entries : List SchemaEntry) :
    Arranges (entries.foldl (fun groups e => place e groups) []) entries := by
  -- The fold takes the entries from the front, so the last one is placed last.
  induction entries using List.reverseRecOn with
  | nil => exact arranges_nil.mpr rfl
  | append_singleton entries e ih =>
    rw [List.foldl_append]
    exact ih.place e

/-- The groups of a catalog are found by placing one entry after the other. -/
theorem groupByNamespace_eq_foldl (entries : List SchemaEntry) :
    groupByNamespace entries = entries.foldl (fun groups e => place e groups) [] :=
  (arranges_groupByNamespace entries).eq (arranges_foldl entries)

/-! ### Listings and numbers -/

/-- The lines for some entries are the names of their groups and a line for each entry. -/
theorem listing_perm (h : entries ≠ []) :
    (listing entries).Perm ((groupByNamespace entries).map Prod.fst ++
      entries.map fun e => "  " ++ e.described) := by
  -- In the listing each name stands before the lines of its group, here all names stand first.
  have hlines := List.flatMap_append_perm (groupByNamespace entries) (fun g => [g.1])
    fun g => g.2.map fun e => "  " ++ e.described
  rw [← List.map_eq_flatMap, ← List.map_flatMap] at hlines
  rw [listing, if_neg (by simpa using h)]
  exact hlines.symm.trans (((arranges_groupByNamespace entries).perm.map _).append_left _)

/-- Attributes of two namespaces, one of them twice. -/
def music : List SchemaEntry :=
  [{ ident := "track/name", nameSpace := "track", isAttribute := true },
   { ident := "artist/gid", nameSpace := "artist", isAttribute := true, isUnique := true },
   { ident := "track/name", nameSpace := "track", isAttribute := true },
   { ident := "track/gid", nameSpace := "track", isAttribute := true, isUnique := true }]

example : listing music =
    ["artist", "  artist/gid [unique]", "track", "  track/name", "  track/name",
      "  track/gid [unique]"] := by
  rw [listing, groupByNamespace_eq_foldl]
  decide +kernel

namespace SchemaStats

instance : Add SchemaStats where
  add s t :=
    { idents := s.idents + t.idents
      functions := s.functions + t.functions
      attributes := s.attributes + t.attributes
      components := s.components + t.components
      unique := s.unique + t.unique }

/-- The numbers of a catalog in two parts are the sums of theirs. -/
theorem ofCatalog_append (a b : List SchemaEntry) :
    ofCatalog (a ++ b) = ofCatalog a + ofCatalog b := by
  simp only [ofCatalog, List.countP_append]
  rfl

/-- The numbers of a catalog do not depend on its order. -/
theorem ofCatalog_perm {a b : List SchemaEntry} (h : a.Perm b) : ofCatalog a = ofCatalog b := by
  simp only [ofCatalog, h.countP_eq]

end SchemaStats

namespace SchemaFilter

/-- What a filter wants of a catalog is a part of it in its order. The groups of that part have
ascending namespaces and share it out between them, each with all there is of its namespace, and the
lines that list it have each entry once. To ask for less loses none of it, and the numbers of a
catalog are the sums of those of its parts. -/
theorem listed_once (f : SchemaFilter) (catalog : List SchemaEntry) :
    let matching := f.apply catalog
    let groups := groupByNamespace matching
    (groups.Pairwise fun a b => Text.bytes a.1 < Text.bytes b.1) ∧
      (∀ g ∈ groups, g.2 ≠ [] ∧ g.2 = matching.filter fun e => e.nameSpace = g.1) ∧
      (groups.flatMap Prod.snd).Perm matching ∧
      (matching ≠ [] → (listing matching).Perm (groups.map Prod.fst ++
        matching.map fun e => "  " ++ e.described)) ∧
      matching = (catalog.filter fun e => decide (f.Wants e)) ∧ matching.Sublist catalog ∧
      (∀ g : SchemaFilter, f.Narrows g → matching.Sublist (g.apply catalog)) ∧
      ∀ a b : List SchemaEntry, (a ++ b).Perm catalog →
        SchemaStats.ofCatalog catalog = SchemaStats.ofCatalog a + SchemaStats.ofCatalog b := by
  intro matching groups
  have harranged : Arranges groups matching := arranges_groupByNamespace matching
  refine ⟨harranged.ascending.imp Text.bytes_lt_bytes.mpr,
    fun g hg => ⟨harranged.nonempty g hg, harranged.group g hg⟩, harranged.perm, listing_perm,
    apply_eq f catalog, List.filter_sublist, fun g hg => hg.apply_sublist catalog,
    fun a b hparts => ?_⟩
  rw [← SchemaStats.ofCatalog_perm hparts, SchemaStats.ofCatalog_append]

theorem music_listed_once :
    let unique : SchemaFilter := { onlyUnique := true }
    (listing (unique.apply music)).Perm ((groupByNamespace (unique.apply music)).map Prod.fst ++
        (unique.apply music).map fun e => "  " ++ e.described) ∧
      (unique.apply music).Sublist (({} : SchemaFilter).apply music) ∧
      SchemaStats.ofCatalog music =
        SchemaStats.ofCatalog (music.drop 1) + SchemaStats.ofCatalog (music.take 1) := by
  intro unique
  obtain ⟨-, -, -, hlines, -, -, hmore, hparts⟩ := listed_once unique music
  have hnarrows : unique.Narrows {} := ⟨id, id, id, nofun, id, rfl⟩
  exact ⟨hlines (List.cons_ne_nil _ _), hmore {} hnarrows, hparts _ _ List.perm_append_comm⟩

end SchemaFilter

end DatalogClient
