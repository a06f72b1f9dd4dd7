import DatalogClient.Proofs.Json.Names
import DatalogClient.Proofs.Json.Reading
import DatalogClient.Proofs.Value.Words
import DatalogClient.Value.Wire

/-!
# Literals that are read back

A list of two may be read as a typed text: the head names the kind, or is its number, and a text
follows. Such a list, and a number that is not finite, are not read back from their wire forms.
Every other literal is, and so is every literal that was read.

## Main definitions

* `Value.Every` — a condition holds of a literal and of every literal inside it
* `Value.namesKind`, `Value.marksKind` — heads of lists that pass for kinds
* `Value.Canonical` — no number is out of range, no list passes for a typed text

## Main results

* `Value.ofJson?_toJson_iff` — a literal is read back exactly if it is canonical
* `Value.canonical_of_ofJson?` — a literal that was read is canonical
-/

namespace DatalogClient

open Json (Reads)

namespace Value

/-! ### Literals inside literals -/

mutual

/-- A condition holds of a literal and of every literal inside it. -/
def Every (p : Value → Prop) : Value → Prop
  | .list items => p (.list items) ∧ EveryItem p items
  | .bool b => p (.bool b)
  | .int n => p (.int n)
  | .float x => p (.float x)
  | .text s => p (.text s)
  | .typed t => p (.typed t)

/-- The condition holds everywhere inside the items. -/
def EveryItem (p : Value → Prop) : List Value → Prop
  | [] => True
  | item :: rest => Every p item ∧ EveryItem p rest

end

variable {p : Value → Prop}

theorem everyItem_iff (items : List Value) :
    EveryItem p items ↔ ∀ item ∈ items, item.Every p := by
  induction items with
  | nil => simp [EveryItem]
  | cons item rest ih => simp [EveryItem, ih]

@[simp] theorem every_list (items : List Value) :
    (Value.list items).Every p ↔ p (.list items) ∧ ∀ item ∈ items, item.Every p := by
  rw [Every, everyItem_iff]

/-- Induction over literals: a statement about a list may use the statement about its items. -/
theorem nestedInduction {motive : Value → Prop} (bool : ∀ b, motive (.bool b))
    (int : ∀ n, motive (.int n)) (float : ∀ x, motive (.float x)) (text : ∀ s, motive (.text s))
    (typed : ∀ t, motive (.typed t))
    (list : ∀ items, (∀ item ∈ items, motive item) → motive (.list items))
    (v : Value) : motive v := by
  -- The recursor also speaks of lists of literals.
  refine @Value.rec motive (fun items => ∀ item ∈ items, motive item)
    bool int float text typed list ?_ ?_ v
  · simp
  · intro item rest hitem hrest
    simp only [List.mem_cons, forall_eq_or_imp]
    exact ⟨hitem, hrest⟩

/-! ### Lists that pass for typed texts -/

/-- A text that is the name of a kind. -/
def namesKind : Value → Bool
  | .text s => (Kind.ofName? s).isSome
  | _ => false

/-- An integer that is the number of a kind. -/
def numbersKind : Value → Bool
  | .int n => decide (0 ≤ n.toInt ∧ n.toInt < 8)
  | _ => false

/-- What a list may begin with to be read as a typed text: the name or the number of a kind. -/
def marksKind (head : Value) : Bool := namesKind head || numbersKind head

/-- A list of two that begins with a head of the given kind and ends in a text. -/
def isPair (heads : Value → Bool) : List Value → Bool
  | [head, .text _] => heads head
  | _ => false

/-- The condition on a literal, apart from the literals inside it. -/
def CanonicalHere (heads : Value → Bool) : Value → Prop
  | .float x => x.isFinite = true
  | .list items => isPair heads items = false
  | _ => True

/-- No number is infinite or undefined, and no list of a head and a text passes for a typed text,
if such heads pass for kinds. -/
def Canonical (heads : Value → Bool) (v : Value) : Prop := v.Every (CanonicalHere heads)

@[simp] theorem canonical_bool (heads : Value → Bool) (b : Bool) :
    (Value.bool b).Canonical heads := trivial

@[simp] theorem canonical_int (heads : Value → Bool) (n : Int64) :
    (Value.int n).Canonical heads := trivial

@[simp] theorem canonical_text (heads : Value → Bool) (s : String) :
    (Value.text s).Canonical heads := trivial

@[simp] theorem canonical_typed (heads : Value → Bool) (t : TypedText) :
    (Value.typed t).Canonical heads := trivial

@[simp] theorem canonical_float (heads : Value → Bool) (x : Float) :
    (Value.float x).Canonical heads ↔ x.isFinite = true := Iff.rfl

@[simp] theorem canonical_list (heads : Value → Bool) (items : List Value) :
    (Value.list items).Canonical heads ↔
      isPair heads items = false ∧ ∀ item ∈ items, item.Canonical heads := every_list items

/-! ### Wire forms -/

@[simp] theorem listToJson_eq_map (items : List Value) : listToJson items = items.map toJson := by
  induction items with
  | nil => rfl
  | cons item rest ih => rw [listToJson, ih, List.map_cons]

/-- Of literals only plain texts are written as strings. -/
theorem toJson_eq_str_iff {v : Value} {s : String} : v.toJson = .str s ↔ v = .text s := by
  cases v with
  | float x =>
    rw [toJson]
    split_ifs <;> simp
  | text t => simp [toJson]
  | bool b => simp [toJson]
  | int n => simp [toJson, Json.int]
  | typed t => simp [toJson, TypedText.toJson]
  | list items => simp [toJson]

/-- Of literals only lists are written as lists. -/
theorem toJson_eq_arr_iff {v : Value} {items : List Json} :
    v.toJson = .arr items ↔ ∃ values, v = .list values ∧ values.map toJson = items := by
  cases v with
  | float x =>
    rw [toJson]
    split_ifs <;> simp
  | text t => simp [toJson]
  | bool b => simp [toJson]
  | int n => simp [toJson, Json.int]
  | typed t => simp [toJson, TypedText.toJson]
  | list values => simp [toJson]

theorem listOfJson?_eq_some_iff {items : List Json} {values : List Value} :
    listOfJson? items = some values ↔
      List.Forall₂ (fun item value => ofJson? item = some value) items values :=
  Json.readList_eq_some_iff ofJson? listOfJson? rfl fun item rest => by
    rw [listOfJson?]
    cases ofJson? item <;> rfl

@[simp] theorem reads_decode_iff {j : Json} {v : Value} :
    Reads decode j v ↔ ofJson? j = some v :=
  Json.reads_inSomeForm_iff

/-- Literals are read from a list of values. -/
theorem reads_each_decode_iff {j : Json} {values : List Value} :
    Reads (Json.each decode) j values ↔
      ∃ items, j = .arr items ∧ listOfJson? items = some values := by
  have hread : Reads decode = fun item value => ofJson? item = some value := by
    funext item value
    exact propext reads_decode_iff
  simp only [Json.reads_each_iff, listOfJson?_eq_some_iff, hread]

theorem toInt_ofInt_of_fits {n : Int}
    (h : Int64.minValue.toInt ≤ n ∧ n ≤ Int64.maxValue.toInt) : (Int64.ofInt n).toInt = n := by
  rw [Int64.toInt_minValue, Int64.toInt_maxValue] at h
  exact Int64.toInt_ofInt_of_le h.1 (by omega)

/-- An integer is kept whole if it is a signed word, and no other one becomes that word. -/
theorem ofInt_eq_int_iff {m : Int} {n : Int64} : ofInt m = .int n ↔ m = n.toInt := by
  rw [ofInt]
  constructor
  · intro h
    split_ifs at h with hfits
    rw [← Value.int.inj h, toInt_ofInt_of_fits hfits]
  · rintro rfl
    rw [if_pos ⟨n.minValue_le_toInt, n.toInt_le⟩, Int64.ofInt_toInt]

/-- A signed word is read from that integer only. -/
theorem ofJson?_eq_int_iff {j : Json} {n : Int64} :
    ofJson? j = some (.int n) ↔ j = .num (.int n.toInt) := by
  match j with
  | .null => simp [ofJson?]
  | .bool b => simp [ofJson?]
  | .num (.int m) =>
    rw [ofJson?, Option.some_inj, ofInt_eq_int_iff, Json.num.injEq, Number.int.injEq]
  | .num (.float x) => simp [ofJson?]
  | .str t => simp [ofJson?]
  | .arr items =>
    rw [ofJson?]
    cases TypedText.ofItems? items <;> simp
  | .obj members => simp [ofJson?]

/-- A plain text is read from a string only. -/
theorem ofJson?_eq_text_iff {j : Json} {s : String} :
    ofJson? j = some (.text s) ↔ j = .str s := by
  match j with
  | .null => simp [ofJson?]
  | .bool b => simp [ofJson?]
  | .num (.int n) =>
    simp only [ofJson?, ofInt, Option.some.injEq, reduceCtorEq, iff_false]
    split_ifs <;> simp
  | .num (.float x) => simp [ofJson?]
  | .str t => simp [ofJson?]
  | .arr items =>
    rw [ofJson?]
    cases TypedText.ofItems? items <;> simp
  | .obj members => simp [ofJson?]

/-- A list is read from a list that is no typed text. -/
theorem ofJson?_eq_list_iff {j : Json} {values : List Value} :
    ofJson? j = some (.list values) ↔
      ∃ items, j = .arr items ∧ TypedText.ofItems? items = none ∧
        listOfJson? items = some values := by
  match j with
  | .null => simp [ofJson?]
  | .bool b => simp [ofJson?]
  | .num (.int n) =>
    simp only [ofJson?, ofInt, Option.some.injEq, reduceCtorEq, false_and, exists_false, iff_false]
    split_ifs <;> simp
  | .num (.float x) => simp [ofJson?]
  | .str t => simp [ofJson?]
  | .arr items =>
    rw [ofJson?]
    cases htyped : TypedText.ofItems? items with
    | some t => simp [htyped]
    | none => simp [htyped]
  | .obj members => simp [ofJson?]

/-- No name repeats in a wire form. -/
theorem distinct_toJson (v : Value) : v.toJson.Distinct := by
  induction v using nestedInduction with
  | list items ih =>
    rw [toJson, listToJson_eq_map, Json.distinct_arr]
    intro j hj
    obtain ⟨item, hmem, rfl⟩ := List.mem_map.mp hj
    exact ih item hmem
  | float x =>
    rw [toJson]
    split_ifs <;> trivial
  | typed t =>
    simp [toJson, TypedText.toJson, Json.Distinct, Json.NamesOnce, Json.Every]
  | bool b => trivial
  | int n => trivial
  | text s => trivial

/-! ### Reading back -/

theorem ofInt_toInt (n : Int64) : ofInt n.toInt = .int n := by
  rw [ofInt, if_pos ⟨n.minValue_le_toInt, n.toInt_le⟩, Int64.ofInt_toInt]

theorem isSome_kindAtHead?_int (n : Int) :
    (TypedText.kindAtHead? (.num (.int n))).isSome = decide (0 ≤ n ∧ n < 8) := by
  have hlength : Kind.all.length = 8 := rfl
  by_cases hn : n < 0
  · have hneg : ¬ (0 ≤ n ∧ n < 8) := by omega
    simp [TypedText.kindAtHead?, hn, hneg]
  · have hpos : 0 ≤ n := Int.not_lt.mp hn
    by_cases hlt : n < 8
    · have hindex : n.toNat < Kind.all.length := by omega
      simp [TypedText.kindAtHead?, hn, hlt, hindex, hpos]
    · have hindex : Kind.all.length ≤ n.toNat := by omega
      simp [TypedText.kindAtHead?, hn, hlt, hindex]

/-- The heads of wire forms that are kinds are those of the names and numbers of kinds. -/
theorem isSome_kindAtHead?_toJson (v : Value) :
    (TypedText.kindAtHead? v.toJson).isSome = marksKind v := by
  cases v with
  | int n =>
    rw [toJson, Json.int, isSome_kindAtHead?_int]
    simp [marksKind, namesKind, numbersKind]
  | float x =>
    rw [toJson]
    split_ifs <;> rfl
  | text s => simp [toJson, TypedText.kindAtHead?, marksKind, namesKind, numbersKind]
  | bool b => rfl
  | typed t => rfl
  | list items => rfl

theorem isSome_ofItems?_toJson (items : List Value) :
    (TypedText.ofItems? (items.map toJson)).isSome = isPair marksKind items := by
  -- Only a plain text is written as a string, so the second item decides first.
  match items with
  | [] => rfl
  | [a] => rfl
  | [head, .text s] =>
    rw [List.map_cons, List.map_cons, List.map_nil, toJson, TypedText.ofItems?, Option.isSome_map,
      isSome_kindAtHead?_toJson, isPair]
  | [head, .float x] =>
    -- A number that is not finite is written as null.
    simp only [List.map_cons, List.map_nil, toJson, isPair]
    split_ifs <;> rfl
  | [head, .bool b] => rfl
  | [head, .int n] => rfl
  | [head, .typed t] => rfl
  | [head, .list inner] => rfl
  | a :: b :: c :: rest => simp [TypedText.ofItems?, isPair]

/-- Literals are read back together if each of them is read back. -/
theorem listOfJson?_map_toJson_iff {items : List Value} :
    listOfJson? (items.map toJson) = some items ↔
      ∀ item ∈ items, ofJson? item.toJson = some item := by
  rw [listOfJson?_eq_some_iff, List.forall₂_map_left_iff, List.forall₂_same]

/-- A literal is read back from its wire form exactly if it is canonical. -/
theorem ofJson?_toJson_iff (v : Value) :
    ofJson? v.toJson = some v ↔ v.Canonical marksKind := by
  induction v using nestedInduction with
  | bool b => simp [toJson, ofJson?]
  | int n => simp [toJson, Json.int, ofJson?, ofInt_toInt]
  | text s => simp [toJson, ofJson?]
  | typed t =>
    simp [toJson, TypedText.toJson, ofJson?, TypedText.ofMembers?, TypedText.valuesOf,
      TypedText.kindOf?]
  | float x =>
    by_cases hx : x.isFinite = true
    · simp [toJson, hx, ofJson?]
    · simp [toJson, hx, ofJson?]
  | list items ih =>
    rw [toJson, listToJson_eq_map, ofJson?, canonical_list]
    have hpair := isSome_ofItems?_toJson items
    cases htyped : TypedText.ofItems? (items.map toJson) with
    | some t =>
      -- The list is captured: a typed text is read, and it is no list.
      rw [htyped, Option.isSome_some] at hpair
      simp [← hpair]
    | none =>
      rw [htyped, Option.isSome_none] at hpair
      have hitems : listOfJson? (items.map toJson) = some items ↔
          ∀ item ∈ items, item.Canonical marksKind := by
        rw [listOfJson?_map_toJson_iff]
        exact forall₂_congr ih
      simp [← hpair, hitems]

/-! ### What was read is canonical -/

/-- A list that is not read as a typed text gives no list that passes for one. -/
theorem isPair_eq_false_of_read {items : List Json} {values : List Value}
    (hitems : TypedText.ofItems? items = none)
    (hvalues : List.Forall₂ (fun item value => ofJson? item = some value) items values) :
    isPair marksKind values = false := by
  rw [Bool.eq_false_iff]
  intro hpair
  obtain ⟨head, s, rfl⟩ : ∃ head s, values = [head, .text s] := by
    match values, hpair with
    | [head, .text s], _ => exact ⟨head, s, rfl⟩
  obtain ⟨h, rest, hhead, hrest, rfl⟩ := List.forall₂_cons_right_iff.mp hvalues
  obtain ⟨x, tail, htext, htail, rfl⟩ := List.forall₂_cons_right_iff.mp hrest
  obtain rfl := List.forall₂_nil_right_iff.mp htail
  obtain rfl := ofJson?_eq_text_iff.mp htext
  -- The head was read from the very form that makes it a kind.
  have hkind : (TypedText.kindAtHead? h).isSome = true := by
    rw [isPair] at hpair
    cases head with
    | text name =>
      obtain rfl := ofJson?_eq_text_iff.mp hhead
      simpa [TypedText.kindAtHead?, marksKind, namesKind, numbersKind] using hpair
    | int n =>
      obtain rfl := ofJson?_eq_int_iff.mp hhead
      rw [isSome_kindAtHead?_int]
      simpa [marksKind, namesKind, numbersKind] using hpair
    | bool b => simp [marksKind, namesKind, numbersKind] at hpair
    | float x => simp [marksKind, namesKind, numbersKind] at hpair
    | typed t => simp [marksKind, namesKind, numbersKind] at hpair
    | list inner => simp [marksKind, namesKind, numbersKind] at hpair
  rw [TypedText.ofItems?, Option.map_eq_none_iff] at hitems
  simp [hitems] at hkind

/-- An integer beyond the signed words is rounded, and stays finite. -/
theorem canonical_ofInt (n : Int) : (ofInt n).Canonical marksKind := by
  rw [ofInt]
  split_ifs
  · simp
  · rw [canonical_float]
    exact isFinite_toFloat _

theorem canonical_of_readItems {items : List Json} {values : List Value}
    (htyped : TypedText.ofItems? items = none)
    (hvalues : List.Forall₂ (fun item value => ofJson? item = some value) items values)
    (ih : ∀ item ∈ items, ∀ value, ofJson? item = some value → value.Canonical marksKind) :
    (list values).Canonical marksKind := by
  rw [canonical_list]
  refine ⟨isPair_eq_false_of_read htyped hvalues, ?_⟩
  intro value hvalue
  obtain ⟨item, hitem, hread⟩ := Json.exists_item_of_mem hvalues hvalue
  exact ih item hitem value hread

/-- A literal that was read is canonical. -/
theorem canonical_of_ofJson? {j : Json} (hj : j.Finite) {v : Value} (h : ofJson? j = some v) :
    v.Canonical marksKind := by
  induction j using Json.nestedInduction generalizing v with
  | null => simp [ofJson?] at h
  | bool b =>
    obtain rfl := Option.some.inj h
    simp
  | str s =>
    obtain rfl := Option.some.inj h
    simp
  | num n =>
    cases n with
    | int n =>
      obtain rfl := Option.some.inj h
      exact canonical_ofInt n
    | float x =>
      obtain rfl := Option.some.inj h
      simpa using hj
  | obj members ih =>
    obtain ⟨t, -, rfl⟩ := Option.map_eq_some_iff.mp h
    simp
  | arr items ih =>
    rw [ofJson?] at h
    cases htyped : TypedText.ofItems? items with
    | some t =>
      rw [htyped] at h
      obtain rfl := Option.some.inj h
      simp
    | none =>
      rw [htyped] at h
      obtain ⟨values, hvalues, rfl⟩ := Option.map_eq_some_iff.mp h
      rw [listOfJson?_eq_some_iff] at hvalues
      rw [Json.finite_arr] at hj
      exact canonical_of_readItems htyped hvalues fun item hitem _ => ih item hitem (hj item hitem)

theorem canonical_of_decode (j : Json) (v : Value) (hj : j.Every Json.FiniteNumber)
    (h : Reads decode j v) : v.Canonical marksKind :=
  canonical_of_ofJson? hj (reads_decode_iff.mp h)

end Value

end DatalogClient
