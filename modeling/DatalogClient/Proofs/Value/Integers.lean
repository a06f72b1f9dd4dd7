import DatalogClient.Proofs.Value.Canonical
import Mathlib.Data.List.Forall2

/-!
# Integers that are kept

A literal that was read is written again, and with it the integers that stand in it. None is added
and none changes its place, but some may be missing: those that a signed word does not hold, which
become floating-point numbers, and those inside what is read as a typed text.

## Main definitions

* `Json.integers` — the integers inside a JSON value, in the order written
* `Value.KeepsHere` — the condition on a value, apart from the values inside it
* `Value.Rewritten` — one value is what is written for the literal that is read from another

## Main results

* `Value.integers_toJson` — which integers are there again
-/

namespace DatalogClient

namespace Json

mutual

/-- The integers inside a value, in the order written. -/
def integers : Json → List Int
  | .num (.int n) => [n]
  | .num (.float _) => []
  | .arr items => integersOfItems items
  | .obj members => integersOfMembers members
  | .null => []
  | .bool _ => []
  | .str _ => []

/-- The integers inside items. -/
def integersOfItems : List Json → List Int
  | [] => []
  | item :: rest => integers item ++ integersOfItems rest

/-- The integers inside the values of members. -/
def integersOfMembers : List (String × Json) → List Int
  | [] => []
  | (_, value) :: rest => integers value ++ integersOfMembers rest

end

@[simp] theorem integers_arr (items : List Json) :
    (Json.arr items).integers = items.flatMap integers := by
  rw [integers]
  induction items with
  | nil => rfl
  | cons item rest ih => rw [integersOfItems, ih, List.flatMap_cons]

@[simp] theorem integers_obj (members : List (String × Json)) :
    (Json.obj members).integers = members.flatMap fun member => member.2.integers := by
  rw [integers]
  induction members with
  | nil => rfl
  | cons member rest ih => rw [integersOfMembers, ih, List.flatMap_cons]

/-- Pieces that are each a part of another piece make up a part of the whole. All of it is there
exactly if all of each piece is. -/
theorem flatMap_sublist_and_eq_iff {α β γ : Type} {f : α → List γ} {g : β → List γ} {q : α → Prop}
    {R : α → β → Prop} {items : List α} {others : List β} (h : List.Forall₂ R items others)
    (hpiece : ∀ a ∈ items, ∀ b, R a b → (g b).Sublist (f a) ∧ (g b = f a ↔ q a)) :
    (others.flatMap g).Sublist (items.flatMap f) ∧
      (others.flatMap g = items.flatMap f ↔ ∀ a ∈ items, q a) := by
  induction h with
  | nil => simp
  | @cons a b items others hhead _ ih =>
    obtain ⟨hfirst, hfirstAll⟩ := hpiece a List.mem_cons_self b hhead
    obtain ⟨hrest, hrestAll⟩ := ih fun a ha => hpiece a (List.mem_cons_of_mem _ ha)
    rw [List.flatMap_cons, List.flatMap_cons, List.forall_mem_cons, ← hfirstAll, ← hrestAll]
    refine ⟨hfirst.append hrest, ?_⟩
    constructor
    · intro heq
      -- Neither piece is longer than what it is a part of, so both are as long.
      have hlength := congrArg List.length heq
      rw [List.length_append, List.length_append] at hlength
      have hshort := hfirst.length_le
      have hrestShort := hrest.length_le
      exact ⟨hfirst.eq_of_length (by omega), hrest.eq_of_length (by omega)⟩
    · rintro ⟨hsame, hrestSame⟩
      rw [hsame, hrestSame]

end Json

namespace Value

/-- A signed word holds an integer, and what is read as a typed text holds none. -/
def KeepsHere : Json → Prop
  | .num (.int n) => Int64.minValue.toInt ≤ n ∧ n ≤ Int64.maxValue.toInt
  | .num (.float _) => True
  | .arr items => (TypedText.ofItems? items).isSome = true → (Json.arr items).integers = []
  | .obj members => (Json.obj members).integers = []
  | .null => True
  | .bool _ => True
  | .str _ => True

/-- Where there are no integers there is nothing to keep. -/
theorem every_keepsHere_of_integers {j : Json} (h : j.integers = []) : j.Every KeepsHere := by
  induction j using Json.nestedInduction with
  | null | bool _ | str _ => trivial
  | num n =>
    cases n with
    | int n => simp [Json.integers] at h
    | float x => trivial
  | arr items ih =>
    have hitems := h
    rw [Json.integers_arr, List.flatMap_eq_nil_iff] at hitems
    rw [Json.every_arr]
    exact ⟨fun _ => h, fun item hitem => ih item hitem (hitems item hitem)⟩
  | obj members ih =>
    have hmembers := h
    rw [Json.integers_obj, List.flatMap_eq_nil_iff] at hmembers
    rw [Json.every_obj]
    exact ⟨h, fun member hmember => ih member hmember (hmembers member hmember)⟩

theorem integers_toJson_typed (t : TypedText) : (typed t).toJson.integers = [] := by
  simp [toJson, TypedText.toJson, Json.integers]

theorem integers_toJson_float (x : Float) : (float x).toJson.integers = [] := by
  rw [toJson]
  split_ifs <;> rfl

theorem integers_toJson_ofInt (n : Int) :
    (ofInt n).toJson.integers =
      if Int64.minValue.toInt ≤ n ∧ n ≤ Int64.maxValue.toInt then [n] else [] := by
  rw [ofInt]
  split_ifs with h
  · rw [toJson, Json.int, Json.integers, toInt_ofInt_of_fits h]
  · exact integers_toJson_float _

/-- A typed text is written without integers, so what is read as one keeps all of its integers
exactly if it has none. -/
theorem integers_of_typed {j : Json} (t : TypedText) (h : j.Every KeepsHere → j.integers = []) :
    (typed t).toJson.integers.Sublist j.integers ∧
      ((typed t).toJson.integers = j.integers ↔ j.Every KeepsHere) := by
  rw [integers_toJson_typed]
  refine ⟨List.nil_sublist _, ?_⟩
  constructor
  · intro hnil
    exact every_keepsHere_of_integers hnil.symm
  · intro hkept
    exact (h hkept).symm

theorem integers_of_number (n : Number) {v : Value} (h : ofJson? (.num n) = some v) :
    v.toJson.integers.Sublist (Json.num n).integers ∧
      (v.toJson.integers = (Json.num n).integers ↔ (Json.num n).Every KeepsHere) := by
  cases n with
  | int n =>
    obtain rfl := Option.some.inj h
    rw [integers_toJson_ofInt, Json.integers, Json.Every, KeepsHere]
    split_ifs with hfits
    · exact ⟨.refl _, iff_of_true rfl hfits⟩
    · exact ⟨List.nil_sublist _, iff_of_false (by simp) hfits⟩
  | float x =>
    obtain rfl := Option.some.inj h
    rw [integers_toJson_float]
    exact ⟨.refl _, iff_of_true rfl trivial⟩

/-- No integer is added and none changes its place when a literal is read and written. All integers
are there again exactly if a signed word holds each of them and none stands in a typed text. -/
theorem integers_toJson {j : Json} {v : Value} (h : ofJson? j = some v) :
    v.toJson.integers.Sublist j.integers ∧
      (v.toJson.integers = j.integers ↔ j.Every KeepsHere) := by
  induction j using Json.nestedInduction generalizing v with
  | null => simp [ofJson?] at h
  | bool b =>
    obtain rfl := Option.some.inj h
    exact ⟨.refl _, iff_of_true rfl trivial⟩
  | str s =>
    obtain rfl := Option.some.inj h
    exact ⟨.refl _, iff_of_true rfl trivial⟩
  | num n => exact integers_of_number n h
  | arr items ih =>
    rw [ofJson?] at h
    cases hitems : TypedText.ofItems? items with
    | some t =>
      rw [hitems] at h
      obtain rfl := Option.some.inj h
      refine integers_of_typed t fun hkept => ?_
      exact ((Json.every_arr items).mp hkept).1 (by rw [hitems]; rfl)
    | none =>
      rw [hitems] at h
      obtain ⟨values, hvalues, rfl⟩ := Option.map_eq_some_iff.mp h
      rw [listOfJson?_eq_some_iff] at hvalues
      -- The list stays a list, so it loses just what its items lose.
      have hhere : KeepsHere (.arr items) := by
        intro hsome
        simp [hitems] at hsome
      rw [toJson, listToJson_eq_map, Json.integers_arr, Json.integers_arr, List.flatMap_map,
        Json.every_arr]
      simp only [hhere, true_and]
      exact Json.flatMap_sublist_and_eq_iff hvalues fun item hitem v hv => ih item hitem hv
  | obj members ih =>
    -- Kind and text hold no integers, and what else is in the object is not written.
    obtain ⟨t, -, rfl⟩ := Option.map_eq_some_iff.mp h
    exact integers_of_typed t fun hkept => ((Json.every_obj members).mp hkept).1

/-- What is written for the literal that is read from a value. -/
def Rewritten (j other : Json) : Prop := ∃ v, ofJson? j = some v ∧ other = v.toJson

theorem Rewritten.integers {j other : Json} (h : Rewritten j other) :
    other.integers.Sublist j.integers ∧ (other.integers = j.integers ↔ j.Every KeepsHere) := by
  obtain ⟨v, hread, rfl⟩ := h
  exact integers_toJson hread

end Value

end DatalogClient
