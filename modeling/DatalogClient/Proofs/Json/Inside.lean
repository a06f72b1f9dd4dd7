import DatalogClient.Json.Basic

/-!
# What holds everywhere inside a JSON value

A condition on JSON values may be asked of a value and of all values inside it. Two such
conditions make a `Json` tree a JSON value proper: that no object holds a name twice, and that
every number is finite.

## Main definitions

* `Json.Every` — a condition holds of a value and of every value inside it
* `Json.Distinct` — no object holds a name twice
* `Json.Finite` — no number is infinite or undefined

## Main results

* `Json.nestedInduction` — induction over values, their items and their members
* `Json.every_arr`, `Json.every_obj` — a condition on a container and on what it holds
-/

namespace DatalogClient

namespace Json

mutual

/-- A condition holds of a value and of every value inside it. -/
def Every (p : Json → Prop) : Json → Prop
  | .arr items => p (.arr items) ∧ EveryItem p items
  | .obj members => p (.obj members) ∧ EveryMember p members
  | .null => p .null
  | .bool b => p (.bool b)
  | .num n => p (.num n)
  | .str s => p (.str s)

/-- The condition holds everywhere inside the items. -/
def EveryItem (p : Json → Prop) : List Json → Prop
  | [] => True
  | item :: rest => Every p item ∧ EveryItem p rest

/-- The condition holds everywhere inside the values of the members. -/
def EveryMember (p : Json → Prop) : List (String × Json) → Prop
  | [] => True
  | (_, value) :: rest => Every p value ∧ EveryMember p rest

end

/-- An object holds each of its names once. -/
def NamesOnce : Json → Prop
  | .obj members => (members.map (·.1)).Nodup
  | _ => True

/-- A number is finite. -/
def FiniteNumber : Json → Prop
  | .num (.float x) => x.isFinite = true
  | _ => True

/-- No object of the value holds a name twice. -/
def Distinct (j : Json) : Prop := j.Every NamesOnce

/-- No number of the value is infinite or undefined. -/
def Finite (j : Json) : Prop := j.Every FiniteNumber

variable {p : Json → Prop}

theorem everyItem_iff (items : List Json) :
    EveryItem p items ↔ ∀ item ∈ items, item.Every p := by
  induction items with
  | nil => simp [EveryItem]
  | cons item rest ih => simp [EveryItem, ih]

theorem everyMember_iff (members : List (String × Json)) :
    EveryMember p members ↔ ∀ member ∈ members, member.2.Every p := by
  induction members with
  | nil => simp [EveryMember]
  | cons member rest ih => simp [EveryMember, ih]

@[simp] theorem every_arr (items : List Json) :
    (Json.arr items).Every p ↔ p (.arr items) ∧ ∀ item ∈ items, item.Every p := by
  rw [Every, everyItem_iff]

@[simp] theorem every_obj (members : List (String × Json)) :
    (Json.obj members).Every p ↔ p (.obj members) ∧ ∀ member ∈ members, member.2.Every p := by
  rw [Every, everyMember_iff]

@[simp] theorem distinct_null : Json.null.Distinct := trivial

@[simp] theorem distinct_str (s : String) : (Json.str s).Distinct := trivial

@[simp] theorem distinct_arr (items : List Json) :
    (Json.arr items).Distinct ↔ ∀ item ∈ items, item.Distinct := by
  simp [Distinct, NamesOnce]

@[simp] theorem distinct_obj (members : List (String × Json)) :
    (Json.obj members).Distinct ↔
      (members.map (·.1)).Nodup ∧ ∀ member ∈ members, member.2.Distinct := by
  simp [Distinct, NamesOnce]

@[simp] theorem finite_num_float (x : Float) :
    (Json.num (.float x)).Finite ↔ x.isFinite = true := Iff.rfl

@[simp] theorem finite_arr (items : List Json) :
    (Json.arr items).Finite ↔ ∀ item ∈ items, item.Finite := by
  simp [Finite, FiniteNumber]

@[simp] theorem finite_obj (members : List (String × Json)) :
    (Json.obj members).Finite ↔ ∀ member ∈ members, member.2.Finite := by
  simp [Finite, FiniteNumber]

/-- Induction over values: a statement about a container may use the statement about every value
that the container holds. -/
theorem nestedInduction {motive : Json → Prop} (null : motive .null)
    (bool : ∀ b, motive (.bool b)) (num : ∀ n, motive (.num n)) (str : ∀ s, motive (.str s))
    (arr : ∀ items, (∀ item ∈ items, motive item) → motive (.arr items))
    (obj : ∀ members : List (String × Json),
      (∀ member ∈ members, motive member.2) → motive (.obj members))
    (j : Json) : motive j := by
  -- The recursor of the nested type speaks of lists of items and of members as well.
  refine @Json.rec motive (fun items => ∀ item ∈ items, motive item)
    (fun members => ∀ member ∈ members, motive member.2) (fun member => motive member.2)
    null bool num str arr obj ?_ ?_ ?_ ?_ ?_ j
  · simp
  · intro item rest hitem hrest
    simp only [List.mem_cons, forall_eq_or_imp]
    exact ⟨hitem, hrest⟩
  · simp
  · intro member rest hmember hrest
    simp only [List.mem_cons, forall_eq_or_imp]
    exact ⟨hmember, hrest⟩
  · intro name value hvalue
    exact hvalue

/-- Two conditions hold everywhere inside if both do. -/
theorem every_and_iff {q : Json → Prop} {j : Json} :
    j.Every (fun j => p j ∧ q j) ↔ j.Every p ∧ j.Every q := by
  induction j using nestedInduction with
  | arr items ih =>
    simp only [every_arr]
    rw [forall₂_congr ih]
    simp only [forall_and]
    exact and_and_and_comm
  | obj members ih =>
    simp only [every_obj]
    rw [forall₂_congr ih]
    simp only [forall_and]
    exact and_and_and_comm
  | null => rfl
  | bool b => rfl
  | num n => rfl
  | str s => rfl

end Json

end DatalogClient
