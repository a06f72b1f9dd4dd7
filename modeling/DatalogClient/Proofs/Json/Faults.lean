import DatalogClient.Proofs.Json.Nesting

/-!
# Faults that decoders do not overlook

A decoder that looks at all of a tree fails where the tree holds a fault, wherever the fault is. A
lenient record passes over members that it does not know, and over faults in them; but it looks at
all of the values that it knows, so it fails where the first fault is in one of these.

## Main definitions

* `Decoder.Thorough` — the decoder fails on every tree that holds a fault

## Main results

* `Json.thorough_inSomeForm`, `Json.thorough_each`, `Json.thorough_optional` — the ways to build
  decoders keep thoroughness
* `Json.Record.fails_of_faultyUpTo` — records of thorough fields fail where the first fault is in a
  field
-/

namespace DatalogClient

variable {α β δ : Type}

/-- The decoder fails on every tree that holds a fault. -/
def Decoder.Thorough (decode : Decoder α) : Prop :=
  ∀ (t : Located) (fault : Fault), t.json = .error fault → ∃ p, decode t = .error p

namespace Json

variable {decode : Decoder α}

theorem thorough_text : text.Thorough := by
  intro t fault h
  cases t with
  | scalar value start stop => cases h
  | broken _ _ => exact ⟨_, rfl⟩
  | list _ _ => exact ⟨_, rfl⟩
  | object _ _ => exact ⟨_, rfl⟩

theorem thorough_inSomeForm (type : String) (read : Json → Option α) :
    (inSomeForm type read).Thorough := by
  intro t fault h
  exact ⟨fault.problem, by simp only [inSomeForm, whole, h]⟩

/-- A list fails where one of its items does, or where it breaks off. -/
theorem exists_error_eachItem (hdecode : decode.Thorough) (items : Items) {fault : Fault}
    (h : items.json = .error fault) : ∃ p, eachItem decode items = .error p := by
  cases items with
  | close stop => cases h
  | broken fault surplus => exact ⟨fault.problem, rfl⟩
  | item surplus value leave rest =>
    rw [eachItem]
    cases hread : decode value with
    | error p => exact ⟨p.at? leave, rfl⟩
    | ok a =>
      -- The item was read, so it holds no fault, and the rest does.
      cases hvalue : value.json with
      | error fault =>
        obtain ⟨p, hp⟩ := hdecode value fault hvalue
        cases hp.symm.trans hread
      | ok j =>
        rw [Items.json, hvalue] at h
        cases hrest : rest.json with
        | ok values =>
          rw [hrest] at h
          cases h
        | error fault =>
          obtain ⟨p, hp⟩ := exists_error_eachItem hdecode rest hrest
          exact ⟨p, by simp only [hp, Except.map]⟩

theorem thorough_each (hdecode : decode.Thorough) : (each decode).Thorough := by
  intro t fault h
  cases t with
  | list start items =>
    have hitems : ∃ fault, items.json = .error fault := by
      cases hjson : items.json with
      | error fault => exact ⟨fault, rfl⟩
      | ok values =>
        rw [Located.json, hjson] at h
        cases h
    obtain ⟨fault, hfault⟩ := hitems
    exact exists_error_eachItem hdecode items hfault
  | scalar value start stop => cases h
  | broken _ _ => exact ⟨_, rfl⟩
  | object _ _ => exact ⟨_, rfl⟩

theorem thorough_optional (hdecode : decode.Thorough) : (optional decode).Thorough := by
  intro t fault h
  obtain ⟨p, hp⟩ := hdecode t fault h
  cases t with
  | scalar value start stop => cases h
  | broken _ _ => exact ⟨p, by simp only [optional, hp, Except.map]⟩
  | list _ _ => exact ⟨p, by simp only [optional, hp, Except.map]⟩
  | object _ _ => exact ⟨p, by simp only [optional, hp, Except.map]⟩

/-! ### Records -/

namespace RecordField

/-- The field cannot be filled from a tree that holds a fault. -/
def Thorough (field : RecordField δ) : Prop :=
  ∀ (t : Located) (fault : Fault) (draft : δ), t.json = .error fault →
    ∃ p, field.fill t draft = .error p

theorem thorough_of (name : String) (required : Bool) {decode : Decoder β}
    (get : δ → Option β) (set : β → δ → δ) (hdecode : decode.Thorough) :
    (RecordField.of name required decode get set).Thorough := by
  intro t fault draft h
  obtain ⟨p, hp⟩ := hdecode t fault h
  exact ⟨p, by simp only [RecordField.of, hp, Except.map]⟩

end RecordField

/-- A record fails where the first fault is under the name of a field. -/
theorem Record.fails_of_faultyUpTo {r : Record δ α} (hfields : ∀ field ∈ r.fields, field.Thorough)
    (members : Members) (h : members.FaultyUpTo (r.fields.map (·.name))) (draft : δ) :
    ∃ p, r.ofMembers draft members = .error p := by
  cases members with
  | close stop => exact h.elim
  | broken fault asName => exact ⟨fault.problem, rfl⟩
  | member name nameStop nameLeave value unskippable leave rest =>
    obtain ⟨hknown, hfaulty⟩ := h
    obtain ⟨known, hmem, hname⟩ := List.mem_map.mp hknown
    rw [ofMembers.eq_def]
    simp only []
    cases hfind : r.fields.find? fun field => field.name = name with
    | none => exact absurd (decide_eq_true hname) (List.find?_eq_none.mp hfind known hmem)
    | some field =>
      simp only []
      split_ifs with hfilled
      · exact ⟨_, rfl⟩
      · cases hfill : field.fill value draft with
        | error p => exact ⟨_, rfl⟩
        | ok next =>
          -- The field was filled, so its value holds no fault.
          obtain ⟨fault, hvalue⟩ | hrest := hfaulty
          · obtain ⟨p, hp⟩ := hfields field (List.mem_of_find?_eq_some hfind) value fault draft
              hvalue
            cases hp.symm.trans hfill
          · exact fails_of_faultyUpTo hfields rest hrest next

end Json

end DatalogClient
