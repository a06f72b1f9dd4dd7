import DatalogClient.Proofs.Json.Names
import DatalogClient.Proofs.Value.Canonical
import Mathlib.Data.List.Count

/-!
# Literals without repeated names

A JSON value that is read as a literal is read as the same one if of repeated names only the last
value is kept: kind and text of a typed text stand alone under their names anyway, and no other
member of an object matters.

## Main results

* `Value.ofJson?_collapse` — a literal is read again from the collapsed value
-/

namespace DatalogClient

namespace TypedText

theorem mem_valuesOf {name : String} {value : Json} {members : List (String × Json)} :
    value ∈ valuesOf name members ↔ (name, value) ∈ members := by
  simp [valuesOf]

theorem valuesOf_map (name : String) (f : Json → Json) (members : List (String × Json)) :
    valuesOf name (members.map fun member => (member.1, f member.2)) =
      (valuesOf name members).map f := by
  simp [valuesOf, List.filter_map, Function.comp_def]

/-- A value that stands alone under its name stays. -/
theorem valuesOf_latest {name : String} {value : Json} {members : List (String × Json)}
    (h : valuesOf name members = [value]) : valuesOf name (Json.latest members) = [value] := by
  have honce : (valuesOf name (Json.latest members)).length ≤ 1 := by
    have hcount := List.nodup_iff_count_le_one.mp (Json.nodup_latest members) name
    rw [List.count, List.countP_map, List.countP_eq_length_filter] at hcount
    rw [valuesOf, List.length_map]
    simpa [Function.comp_def, beq_eq_decide] using hcount
  -- What is kept under the name is among what stood there, and something is kept.
  have hmem : ∀ other ∈ valuesOf name (Json.latest members), other = value := by
    intro other hother
    have hfound := mem_valuesOf.mpr (Json.mem_of_mem_latest (mem_valuesOf.mp hother))
    rwa [h, List.mem_singleton] at hfound
  have hname : name ∈ (Json.latest members).map (·.1) := by
    have hvalue : (name, value) ∈ members := mem_valuesOf.mp (h ▸ List.mem_singleton_self value)
    exact Json.mem_map_fst_latest.mpr (List.mem_map_of_mem hvalue)
  obtain ⟨⟨_, other⟩, hother, rfl⟩ := List.mem_map.mp hname
  have hpos := List.length_pos_of_mem (mem_valuesOf.mpr hother)
  obtain ⟨only, honly⟩ := List.length_eq_one_iff.mp (Nat.le_antisymm honce hpos)
  rw [honly, hmem only (honly ▸ List.mem_singleton_self only)]

theorem kindAtHead?_collapse (j : Json) : kindAtHead? j.collapse = kindAtHead? j := by
  cases j <;> rfl

theorem ofItems?_map_collapse (items : List Json) :
    ofItems? (items.map Json.collapse) = ofItems? items := by
  rcases items with _ | ⟨head, _ | ⟨text, _ | ⟨other, rest⟩⟩⟩
  · rfl
  · rfl
  · cases text with
    | str text =>
      have hhead := kindAtHead?_collapse head
      simp only [List.map_cons, List.map_nil, Json.collapse, ofItems?, hhead]
    | _ => rfl
  · simp [ofItems?]

theorem kindOf?_collapse {j : Json} {kind : Kind} (h : kindOf? j = some kind) :
    kindOf? j.collapse = some kind := by
  rw [kindOf?.eq_def] at h
  split at h
  · exact h
  · exact h
  · cases h

/-- A typed text is read again if repeated names are dropped. -/
theorem ofMembers?_collapse {members : List (String × Json)} {t : TypedText}
    (h : ofMembers? members = some t) :
    ofMembers? (Json.latest (Json.collapseMembers members)) = some t := by
  rw [ofMembers?.eq_def] at h
  split at h
  · rename_i tag text htype hvalue
    obtain ⟨kind, hkind, rfl⟩ := Option.map_eq_some_iff.mp h
    have hone {name : String} {value : Json} (h : valuesOf name members = [value]) :
        valuesOf name (Json.latest (Json.collapseMembers members)) = [value.collapse] := by
      refine valuesOf_latest ?_
      rw [Json.collapseMembers_eq_map, valuesOf_map, h, List.map_singleton]
    rw [ofMembers?, hone htype, hone hvalue, Json.collapse]
    simp only [kindOf?_collapse hkind, Option.map_some]
  · cases h

end TypedText

namespace Value

/-- A literal is read again if repeated names are dropped. -/
theorem ofJson?_collapse {j : Json} {v : Value} (h : ofJson? j = some v) :
    ofJson? j.collapse = some v := by
  induction j using Json.nestedInduction generalizing v with
  | null | bool _ | str _ => exact h
  | num n => exact h
  | arr items ih =>
    rw [Json.collapse, ofJson?, Json.collapseItems_eq_map, TypedText.ofItems?_map_collapse]
    rw [ofJson?] at h
    cases htyped : TypedText.ofItems? items with
    | some t => rwa [htyped] at h
    | none =>
      rw [htyped] at h
      obtain ⟨values, hvalues, rfl⟩ := Option.map_eq_some_iff.mp h
      rw [listOfJson?_eq_some_iff] at hvalues
      have hcollapsed : listOfJson? (items.map Json.collapse) = some values := by
        rw [listOfJson?_eq_some_iff, List.forall₂_map_left_iff]
        have hread := (List.forall₂_and_left items values).mpr ⟨fun item hitem => hitem, hvalues⟩
        exact hread.imp fun item value h => ih item h.1 h.2
      simp only [hcollapsed, Option.map_some]
  | obj members _ =>
    rw [ofJson?] at h
    obtain ⟨t, ht, rfl⟩ := Option.map_eq_some_iff.mp h
    rw [Json.collapse, ofJson?, TypedText.ofMembers?_collapse ht, Option.map_some]

end Value

end DatalogClient
