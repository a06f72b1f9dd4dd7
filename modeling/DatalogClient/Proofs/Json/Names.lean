import DatalogClient.Proofs.Json.Inside
import Mathlib.Data.List.Induction
import Mathlib.Data.List.Nodup
import Mathlib.Data.List.Perm.Basic

/-!
# Names of members

Writing an entry over an earlier one of its name keeps names apart; where no name repeats there
is nothing to write over. A value without repeated names is therefore its own collapsed form, and
entries of different names are told by what is found under each name, in whatever order they
stand.

## Main results

* `Json.latest_eq_self`, `Json.nodup_latest` — entries of different names stay as they are, and
  `latest` makes names differ
* `Json.collapse_eq_self` — a value without repeated names is collapsed
* `Json.lookup_eq_some_iff`, `Json.lookup_perm`, `Json.perm_of_lookup` — entries and what is found
  under names
-/

namespace DatalogClient

namespace Json

variable {α : Type}

/-! ### Writing over -/

theorem overwrite_eq_append {name : String} {entries : List (String × α)} (value : α)
    (h : name ∉ entries.map (·.1)) :
    overwrite name value entries = entries ++ [(name, value)] := by
  induction entries with
  | nil => rfl
  | cons entry rest ih =>
    obtain ⟨n, v⟩ := entry
    simp only [List.map_cons, List.mem_cons, not_or] at h
    simp [overwrite, Ne.symm h.1, ih h.2]

/-- Overwriting adds the name unless it is there. -/
theorem map_fst_overwrite (name : String) (value : α) (entries : List (String × α)) :
    (overwrite name value entries).map (·.1) =
      if name ∈ entries.map (·.1) then entries.map (·.1) else entries.map (·.1) ++ [name] := by
  induction entries with
  | nil => simp [overwrite]
  | cons entry rest ih =>
    obtain ⟨n, v⟩ := entry
    by_cases hn : n = name
    · simp [overwrite, hn]
    · have hne : name ≠ n := Ne.symm hn
      simp only [overwrite, hn, ↓reduceIte, List.map_cons, ih, List.mem_cons, hne, false_or]
      split_ifs <;> simp

theorem nodup_overwrite {name : String} {entries : List (String × α)} (value : α)
    (h : (entries.map (·.1)).Nodup) : ((overwrite name value entries).map (·.1)).Nodup := by
  rw [map_fst_overwrite]
  split_ifs with hmem
  · exact h
  · have hnew : ∀ a ∈ entries.map (·.1), ∀ b ∈ [name], a ≠ b := by
      intro a ha b hb hab
      obtain rfl := List.mem_singleton.mp hb
      exact hmem (hab ▸ ha)
    exact List.nodup_append.mpr ⟨h, List.nodup_singleton name, hnew⟩

/-- The names of the latest entries differ. -/
theorem nodup_latest (entries : List (String × α)) : ((latest entries).map (·.1)).Nodup := by
  -- Whatever has been kept so far, if its names differ they go on to differ.
  have step : ∀ kept : List (String × α), (kept.map (·.1)).Nodup →
      ((entries.foldl (fun kept entry => overwrite entry.1 entry.2 kept) kept).map
        (·.1)).Nodup := by
    induction entries with
    | nil =>
      intro kept h
      exact h
    | cons entry rest ih =>
      intro kept h
      have hnext : ((overwrite entry.1 entry.2 kept).map (·.1)).Nodup := nodup_overwrite entry.2 h
      exact ih _ hnext
  exact step [] (by simp)

/-- Entries of different names are the latest ones. -/
theorem latest_eq_self {entries : List (String × α)} (h : (entries.map (·.1)).Nodup) :
    latest entries = entries := by
  -- What has been kept so far stands before the entries that are still to come.
  have step : ∀ kept : List (String × α), ((kept ++ entries).map (·.1)).Nodup →
      entries.foldl (fun kept entry => overwrite entry.1 entry.2 kept) kept = kept ++ entries := by
    clear h
    induction entries with
    | nil => simp
    | cons entry rest ih =>
      intro kept h
      have hnew : entry.1 ∉ kept.map (·.1) := by
        intro hmem
        rw [List.map_append, List.nodup_append] at h
        exact h.2.2 entry.1 hmem entry.1 (by simp) rfl
      rw [List.foldl_cons, overwrite_eq_append _ hnew, ih _ (by simpa using h)]
      simp
  exact step [] (by simpa using h)

/-- One more entry is written over those that are kept. -/
theorem latest_concat (entries : List (String × α)) (entry : String × α) :
    latest (entries ++ [entry]) = overwrite entry.1 entry.2 (latest entries) := by
  rw [latest, List.foldl_append]
  rfl

/-- Entries are kept by their names, so their values may be replaced before or after. -/
theorem latest_map {β : Type} (f : α → β) (entries : List (String × α)) :
    latest (entries.map fun entry => (entry.1, f entry.2)) =
      (latest entries).map fun entry => (entry.1, f entry.2) := by
  have hoverwrite : ∀ (name : String) (value : α) (kept : List (String × α)),
      overwrite name (f value) (kept.map fun entry => (entry.1, f entry.2)) =
        (overwrite name value kept).map fun entry => (entry.1, f entry.2) := by
    intro name value kept
    induction kept with
    | nil => rfl
    | cons entry rest ih =>
      rw [List.map_cons, overwrite, overwrite, ih]
      split_ifs <;> rfl
  induction entries using List.reverseRecOn with
  | nil => rfl
  | append_singleton entries entry ih =>
    rw [List.map_append, List.map_singleton, latest_concat, latest_concat, ih, hoverwrite]

/-- Only entries are kept. -/
theorem mem_of_mem_latest {entries : List (String × α)} {entry : String × α}
    (h : entry ∈ latest entries) : entry ∈ entries := by
  have hoverwrite : ∀ (name : String) (value : α) (kept : List (String × α)),
      entry ∈ overwrite name value kept → entry ∈ kept ∨ entry = (name, value) := by
    intro name value kept hentry
    induction kept with
    | nil => exact .inr (List.mem_singleton.mp hentry)
    | cons first rest ih =>
      rw [overwrite] at hentry
      split_ifs at hentry with hname
      · rcases List.mem_cons.mp hentry with rfl | hrest
        · exact .inr (by rw [← hname])
        · exact .inl (List.mem_cons_of_mem _ hrest)
      · rcases List.mem_cons.mp hentry with rfl | hrest
        · exact .inl List.mem_cons_self
        · exact (ih hrest).imp_left (List.mem_cons_of_mem _)
  induction entries using List.reverseRecOn with
  | nil => exact h
  | append_singleton entries last ih =>
    rw [latest_concat] at h
    rw [List.mem_append, List.mem_singleton]
    exact (hoverwrite _ _ _ h).imp_left ih

/-- Every name is kept. -/
theorem mem_map_fst_latest {name : String} {entries : List (String × α)} :
    name ∈ (latest entries).map (·.1) ↔ name ∈ entries.map (·.1) := by
  induction entries using List.reverseRecOn with
  | nil => rfl
  | append_singleton entries last ih =>
    rw [latest_concat, map_fst_overwrite, List.map_append, List.mem_append, ← ih,
      List.map_singleton, List.mem_singleton]
    split_ifs with hlast
    · constructor
      · exact .inl
      · rintro (hname | rfl)
        · exact hname
        · exact hlast
    · rw [List.mem_append, List.mem_singleton]

theorem latest_eq_nil_iff {entries : List (String × α)} : latest entries = [] ↔ entries = [] := by
  rw [← List.map_eq_nil_iff (f := Prod.fst), ← List.map_eq_nil_iff (f := Prod.fst) (l := entries),
    List.eq_nil_iff_forall_not_mem, List.eq_nil_iff_forall_not_mem]
  exact forall_congr' fun name => not_congr mem_map_fst_latest

/-! ### Collapsing -/

@[simp] theorem collapseItems_eq_map (items : List Json) :
    collapseItems items = items.map collapse := by
  induction items with
  | nil => rfl
  | cons item rest ih => rw [collapseItems, ih, List.map_cons]

@[simp] theorem collapseMembers_eq_map (members : List (String × Json)) :
    collapseMembers members = members.map fun member => (member.1, member.2.collapse) := by
  induction members with
  | nil => rfl
  | cons member rest ih => rw [collapseMembers, ih, List.map_cons]

/-- A value without repeated names is collapsed. -/
theorem collapse_eq_self {j : Json} (h : j.Distinct) : j.collapse = j := by
  induction j using nestedInduction with
  | arr items ih =>
    rw [distinct_arr] at h
    have hitems : items.map collapse = items := by
      calc items.map collapse = items.map id :=
            List.map_congr_left fun item hmem => ih item hmem (h item hmem)
        _ = items := List.map_id items
    rw [collapse, collapseItems_eq_map, hitems]
  | obj members ih =>
    rw [distinct_obj] at h
    obtain ⟨hnames, hvalues⟩ := h
    have hmembers : members.map (fun member => (member.1, member.2.collapse)) = members := by
      calc members.map (fun member => (member.1, member.2.collapse)) = members.map id :=
            List.map_congr_left fun member hmem => by rw [ih member hmem (hvalues member hmem), id]
        _ = members := List.map_id members
    rw [collapse, collapseMembers_eq_map, hmembers, latest_eq_self hnames]
  | null => rfl
  | bool b => rfl
  | num n => rfl
  | str s => rfl

/-- Collapsing leaves no repeated name. -/
theorem distinct_collapse (j : Json) : j.collapse.Distinct := by
  induction j using nestedInduction with
  | arr items ih =>
    rw [collapse, collapseItems_eq_map, distinct_arr, List.forall_mem_map]
    exact ih
  | obj members ih =>
    rw [collapse, collapseMembers_eq_map, distinct_obj]
    refine ⟨nodup_latest _, fun member hmember => ?_⟩
    obtain ⟨original, horiginal, rfl⟩ := List.mem_map.mp (mem_of_mem_latest hmember)
    exact ih original horiginal
  | null | bool _ | num _ | str _ => trivial

theorem collapse_collapse (j : Json) : j.collapse.collapse = j.collapse :=
  collapse_eq_self j.distinct_collapse

/-! ### Looking up -/

@[simp] theorem lookup_nil (name : String) : lookup name ([] : List (String × α)) = none := rfl

theorem lookup_cons (name : String) (entry : String × α) (rest : List (String × α)) :
    lookup name (entry :: rest) = if entry.1 = name then some entry.2 else lookup name rest := by
  by_cases h : entry.1 = name <;> simp [lookup, h]

theorem lookup_append (name : String) (entries others : List (String × α)) :
    lookup name (entries ++ others) = (lookup name entries).or (lookup name others) := by
  induction entries with
  | nil => rfl
  | cons entry rest ih =>
    rw [List.cons_append, lookup_cons, lookup_cons, ih]
    split_ifs <;> rfl

theorem lookup_map {β : Type} (name : String) (f : α → β) (entries : List (String × α)) :
    lookup name (entries.map fun entry => (entry.1, f entry.2)) = (lookup name entries).map f := by
  induction entries with
  | nil => rfl
  | cons entry rest ih =>
    rw [List.map_cons, lookup_cons, lookup_cons, ih]
    split_ifs <;> rfl

theorem lookup_eq_none_iff {name : String} {entries : List (String × α)} :
    lookup name entries = none ↔ name ∉ entries.map (·.1) := by
  induction entries with
  | nil => simp
  | cons entry rest ih =>
    rw [lookup_cons, List.map_cons, List.mem_cons]
    by_cases h : entry.1 = name
    · simp [h]
    · simp [h, Ne.symm h, ih]

/-- Where names differ, what is found under a name is what stands there. -/
theorem lookup_eq_some_iff {name : String} {value : α} {entries : List (String × α)}
    (h : (entries.map (·.1)).Nodup) :
    lookup name entries = some value ↔ (name, value) ∈ entries := by
  induction entries with
  | nil => simp
  | cons entry rest ih =>
    obtain ⟨n, v⟩ := entry
    rw [List.map_cons, List.nodup_cons] at h
    rw [lookup_cons, List.mem_cons]
    by_cases hn : n = name
    · subst hn
      have hrest : (n, value) ∉ rest := fun hmem => h.1 (List.mem_map.mpr ⟨_, hmem, rfl⟩)
      simp [hrest, eq_comm]
    · simp [hn, Ne.symm hn, ih h.2]

/-- Entries in another order have the same values under their names. -/
theorem lookup_perm {entries others : List (String × α)} (h : (entries.map (·.1)).Nodup)
    (hperm : entries.Perm others) (name : String) :
    lookup name entries = lookup name others := by
  have hothers : (others.map (·.1)).Nodup := (hperm.map _).nodup_iff.mp h
  ext value
  rw [lookup_eq_some_iff h, lookup_eq_some_iff hothers, hperm.mem_iff]

/-- Entries of different names that have the same values under every name differ in order only. -/
theorem perm_of_lookup {entries others : List (String × α)} (h : (entries.map (·.1)).Nodup)
    (hothers : (others.map (·.1)).Nodup)
    (hsame : ∀ name, lookup name entries = lookup name others) : entries.Perm others := by
  -- Where names differ entries do, so it is enough that both lists hold the same ones.
  have hentries : entries.Nodup := List.Nodup.of_map _ h
  have hothersEntries : others.Nodup := List.Nodup.of_map _ hothers
  refine (List.perm_ext_iff_of_nodup hentries hothersEntries).mpr ?_
  intro entry
  obtain ⟨name, value⟩ := entry
  rw [← lookup_eq_some_iff h, ← lookup_eq_some_iff hothers, hsame]

/-- Entries of two given names are known by the values under the names. -/
theorem perm_pair_iff {m n : String} (hne : m ≠ n) {a b : α} {entries : List (String × α)}
    (h : (entries.map (·.1)).Nodup) :
    entries.Perm [(m, a), (n, b)] ↔
      (entries.map (·.1)).Perm [m, n] ∧ lookup m entries = some a ∧ lookup n entries = some b := by
  constructor
  · intro hperm
    refine ⟨hperm.map (·.1), ?_, ?_⟩
    · simp [lookup_perm h hperm, lookup_cons]
    · simp [lookup_perm h hperm, lookup_cons, hne]
  · rintro ⟨hnames, hfirst, hsecond⟩
    refine perm_of_lookup h (by simpa using hne) fun name => ?_
    rw [lookup_cons, lookup_cons, lookup_nil]
    split_ifs with hm hn
    · rw [← hm, hfirst]
    · rw [← hn, hsecond]
    · rw [lookup_eq_none_iff, hnames.mem_iff]
      simp [Ne.symm hm, Ne.symm hn]

end Json

end DatalogClient
