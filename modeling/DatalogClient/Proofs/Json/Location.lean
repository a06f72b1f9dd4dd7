import DatalogClient.Json.Basic

/-!
# Where values stand in a JSON value

A location leads from a JSON value to a value inside it, by the names of members and the indices of
items. As text, a point stands before each name and brackets stand around each index.

Names may hold points, so a text does not show by its points alone where names begin. A name is
taken to go on to the next bracket or to the end. That is right for locations in which names hold
no opening bracket and an index stands between any two names.

## Main definitions

* `Json.Step`, `Json.Location`, `Json.at?` — locations and what stands there
* `Json.Location.chars` — locations as text
* `Json.Location.read?` — the location of a text
* `Json.Location.Legible` — locations that can be told from their texts

## Main results

* `Json.at?_append` — what stands at the end of two locations in a row
* `Json.Location.read?_chars` — legible locations are read back
-/

namespace DatalogClient.Json

/-- One step into a value. -/
inductive Step where
  | member (name : String)
  | item (index : Nat)
deriving DecidableEq

/-- The steps to a value inside another. -/
abbrev Location := List Step

/-- What stands one step inside a value. -/
def inside? (j : Json) : Step → Option Json
  | .member name => j.member? name
  | .item index =>
    match j with
    | .arr items => items[index]?
    | _ => none

/-- What stands at a location. -/
def at? (j : Json) : Location → Option Json
  | [] => some j
  | step :: rest => (j.inside? step).bind fun inner => inner.at? rest

@[simp] theorem inside?_item (items : List Json) (index : Nat) :
    (Json.arr items).inside? (.item index) = items[index]? := rfl

@[simp] theorem inside?_member (members : List (String × Json)) (name : String) :
    (Json.obj members).inside? (.member name) = lookup name members := rfl

@[simp] theorem at?_nil (j : Json) : j.at? [] = some j := rfl

@[simp] theorem at?_cons (j : Json) (step : Step) (rest : Location) :
    j.at? (step :: rest) = (j.inside? step).bind fun inner => inner.at? rest := rfl

theorem at?_append (j : Json) (location inner : Location) :
    j.at? (location ++ inner) = (j.at? location).bind fun k => k.at? inner := by
  induction location generalizing j with
  | nil => rfl
  | cons step rest ih =>
    rw [List.cons_append, at?_cons, at?_cons, Option.bind_assoc]
    exact congrArg _ (funext ih)

namespace Location

/-- The text of a location, with a point before each name. -/
def chars : Location → List Char
  | [] => []
  | .member name :: rest => '.' :: (name.toList ++ chars rest)
  | .item index :: rest => '[' :: ((toString index).toList ++ ']' :: chars rest)

/-- What is being read of a location. Characters are kept in reverse. -/
inductive Reading where
  /-- The last step is complete. -/
  | between
  | name (read : List Char)
  | index (read : List Char)

/-- The location of a text of which the beginning has been read. -/
def readFrom? : Reading → List Char → Option Location
  | .between, [] => some []
  | .between, '.' :: rest => readFrom? (.name []) rest
  | .between, '[' :: rest => readFrom? (.index []) rest
  | .between, _ :: _ => none
  | .name read, [] => some [.member (String.ofList read.reverse)]
  | .name read, '[' :: rest =>
    (readFrom? (.index []) rest).map (.member (String.ofList read.reverse) :: ·)
  | .name read, c :: rest => readFrom? (.name (c :: read)) rest
  | .index _, [] => none
  | .index read, ']' :: rest =>
    if read.isEmpty then none
    else (readFrom? .between rest).map (.item (Nat.ofDigitChars 10 read.reverse 0) :: ·)
  | .index read, c :: rest =>
    if c.isDigit then readFrom? (.index (c :: read)) rest else none

/-- The location of a text. -/
def read? (text : List Char) : Option Location := readFrom? .between text

/-- The location of a text that has no point before the first name. -/
def ofText? (text : String) : Option Location :=
  match text.toList with
  | [] => some []
  | '[' :: rest => read? ('[' :: rest)
  | c :: rest => read? ('.' :: c :: rest)

/-- Names hold no opening bracket, and an index stands between any two of them. -/
def Legible : Location → Prop
  | [] => True
  | .item _ :: rest => Legible rest
  | [.member name] => '[' ∉ name.toList
  | .member name :: .item _ :: rest => '[' ∉ name.toList ∧ Legible rest
  | .member _ :: .member _ :: _ => False

/-- A name is read as far as there is no bracket. -/
theorem readFrom?_name {name : List Char} (h : '[' ∉ name) (read rest : List Char) :
    readFrom? (.name read) (name ++ rest) = readFrom? (.name (name.reverse ++ read)) rest := by
  induction name generalizing read with
  | nil => rfl
  | cons c name ih =>
    rw [List.mem_cons, not_or] at h
    obtain ⟨hc, hname⟩ := h
    rw [List.cons_append, readFrom?, ih hname, List.reverse_cons, List.append_assoc]
    · rfl
    · exact fun hbracket => hc hbracket.symm

/-- An index is read as far as there are digits. -/
theorem readFrom?_index {digits : List Char} (h : ∀ c ∈ digits, c.isDigit = true)
    (read rest : List Char) :
    readFrom? (.index read) (digits ++ rest) =
      readFrom? (.index (digits.reverse ++ read)) rest := by
  induction digits generalizing read with
  | nil => rfl
  | cons c digits ih =>
    rw [List.forall_mem_cons] at h
    obtain ⟨hc, hdigits⟩ := h
    rw [List.cons_append, readFrom?, if_pos hc, ih hdigits, List.reverse_cons,
      List.append_assoc]
    · rfl
    · rintro rfl
      cases hc

/-- An index in its brackets is read, and then the rest. -/
theorem readFrom?_item {index : Nat} {rest : Location}
    (h : readFrom? .between rest.chars = some rest) :
    readFrom? (.index []) ((toString index).toList ++ ']' :: rest.chars) =
      some (.item index :: rest) := by
  have hdigits : (toString index).toList = Nat.toDigits 10 index := Nat.toList_repr
  have hne : (Nat.toDigits 10 index).reverse.isEmpty = false := by
    rw [List.isEmpty_reverse, List.isEmpty_eq_false_iff]
    exact Nat.toDigits_ne_nil
  rw [hdigits, readFrom?_index fun c hc => Nat.isDigit_of_mem_toDigits (by decide) (by decide) hc,
    List.append_nil, readFrom?, hne, if_neg Bool.false_ne_true, List.reverse_reverse,
    Nat.ofDigitChars_ten_toDigits, h, Option.map_some]

/-- Legible locations are read back from their texts. -/
theorem read?_chars {location : Location} (h : location.Legible) :
    read? location.chars = some location := by
  rw [read?]
  induction location using Legible.induct with
  | case1 => rfl
  | case2 index rest ih => exact readFrom?_item (ih h)
  | case3 name =>
    rw [chars, chars, readFrom?, readFrom?_name h, readFrom?]
    simp
  | case4 name index rest ih =>
    -- The bracket that ends the name begins the index.
    obtain ⟨hname, hrest⟩ := h
    rw [chars, chars, readFrom?, readFrom?_name hname, readFrom?, readFrom?_item (ih hrest)]
    simp
  | case5 name other rest => exact h.elim

/-- Legible locations are read back from their texts also if the first name has no point. -/
theorem ofText?_eq_some {location : Location} {text : String} (h : location.Legible)
    (hhead : ∃ name rest, location = .member name :: rest ∧ name ≠ "")
    (htext : '.' :: text.toList = location.chars) : ofText? text = some location := by
  obtain ⟨name, rest, rfl, hname⟩ := hhead
  have hchars := read?_chars h
  rw [← htext] at hchars
  rw [chars, List.cons.injEq] at htext
  -- The first character of the text is that of the name, which is no bracket.
  have hbracket : '[' ∉ name.toList := by
    cases rest with
    | nil => exact h
    | cons step rest =>
      cases step with
      | member other => exact h.elim
      | item index => exact h.1
  obtain ⟨c, tail, hlist⟩ := List.exists_cons_of_ne_nil (mt String.toList_eq_nil_iff.mp hname)
  have hc : c ≠ '[' := by
    rintro rfl
    exact hbracket (hlist ▸ List.mem_cons_self)
  have hfirst : text.toList = c :: (tail ++ chars rest) := by
    rw [htext.2, hlist, List.cons_append]
  rw [ofText?, hfirst]
  rw [hfirst] at hchars
  split
  · cases ‹_ = []›
  · rename_i heq
    exact absurd (List.cons.inj heq).1 hc
  · rename_i heq
    rw [← heq]
    exact hchars

end Location

end DatalogClient.Json
