import DatalogClient.Proofs.Json.Names
import DatalogClient.Proofs.Json.Reading
import DatalogClient.Schema.Wire

/-!
# What an envelope encloses

An envelope is an object with its list in the member `data`, whatever other members there are, or a
list of that list alone.

## Main definitions

* `Json.Encloses` — a value is the envelope of a list

## Main results

* `Envelope.reads_iff` — exactly the envelopes of a list are read as such
-/

namespace DatalogClient

variable {α : Type} {item : Decoder α} {values : List α}

/-- The value is the envelope of a list, whose items are read one by one. -/
def Json.Encloses (item : Decoder α) (body : Json) (values : List α) : Prop :=
  ∃ items, (body.member? "data" = some (.arr items) ∨ body = .arr [.arr items]) ∧
    List.Forall₂ (Reads item) items values

namespace Envelope

open Json (FilledFrom Reads each lookup)

theorem build_eq_ok_iff {draft : Option (List α)} :
    (record (each item)).build draft = .ok ⟨values⟩ ↔ draft = some values := by
  cases draft with
  | none => simp [record, Json.need, Except.map]
  | some list => simp [record, Json.need, Except.map]

/-- Of the members of an object only the one named `data` counts. -/
theorem ofMembers_iff {members : List (String × Json)} (hnames : (members.map (·.1)).Nodup)
    {draft : Option (List α)} :
    (record (each item)).ofMembers draft (.ofJson members) = .ok ⟨values⟩ ↔
      FilledFrom (each item) (lookup "data" members) draft (some values) := by
  induction members generalizing draft with
  | nil =>
    rw [Json.Record.ofMembers_nil, build_eq_ok_iff, eq_comm]
    rfl
  | cons member rest ih =>
    obtain ⟨name, value⟩ := member
    rw [List.map_cons, List.nodup_cons, ← Json.lookup_eq_none_iff] at hnames
    obtain ⟨hname, hrest⟩ := hnames
    rw [Json.lookup_cons]
    split_ifs with hdata
    -- Another `data` would be refused, and there is none.
    · subst hdata
      have hfield : (record (each item)).fields.find? (fun f => f.name = "data") =
          some (.of "data" true (each item) id fun a _ => some a) := rfl
      rw [Json.Record.ofMembers_cons_of_iff hfield, Json.filledFrom_some]
      simp only [ih hrest, hname, Json.filledFrom_none, id]
    · have hfield : (record (each item)).fields.find? (fun f => f.name = name) = none := by
        simpa [record, Json.RecordField.of] using Ne.symm hdata
      rw [Json.Record.ofMembers_cons_other hfield rfl, ih hrest]

/-- A list is read as an envelope if it holds a list and nothing else. -/
theorem reads_arr_iff {items : List Json} :
    Reads (decode item) (.arr items) ⟨values⟩ ↔
      ∃ inner, items = [.arr inner] ∧ List.Forall₂ (Reads item) inner values := by
  have hread : Reads (decode item) (.arr items) ⟨values⟩ ↔
      (record (each item)).ofItems (record (each item)).fields 0 none
        (.ofJson items.length items) = .ok ⟨values⟩ := Iff.rfl
  rw [hread]
  match items with
  | [] => simp [record, Json.RecordField.of, Items.ofJson, Json.Record.ofItems]
  | [x] =>
    have hx : Reads (each item) x values ↔
        ∃ inner, x = .arr inner ∧ List.Forall₂ (Reads item) inner values := Json.reads_each_iff
    simp only [List.cons.injEq, and_true]
    rw [← hx, Reads]
    cases hlist : each item (.ofJson x) with
    | error problem =>
      simp [record, Json.RecordField.of, Items.ofJson, Json.Record.ofItems, hlist, Except.map]
    | ok list =>
      simp [record, Json.RecordField.of, Items.ofJson, Json.Record.ofItems, hlist, Except.map,
        Json.Record.finish, Json.need]
  | x :: y :: rest =>
    cases hlist : each item (.ofJson x) with
    | error problem =>
      simp [record, Json.RecordField.of, Items.ofJson, Json.Record.ofItems, hlist, Except.map]
    | ok list =>
      simp [record, Json.RecordField.of, Items.ofJson, Json.Record.ofItems, hlist, Except.map]

/-- What is read as the envelope of a list is such an envelope. -/
theorem reads_iff {body : Json} (hbody : body.Distinct) :
    Reads (decode item) body ⟨values⟩ ↔ body.Encloses item values := by
  cases body with
  | obj members =>
    have hnames := ((Json.distinct_obj members).mp hbody).1
    rw [decode, Json.Record.reads_obj_iff, ofMembers_iff hnames, Json.Encloses]
    simp only [Json.member?]
    cases hdata : lookup "data" members with
    | none => simp [record]
    | some value => simp [record, Json.reads_each_iff]
  | arr items =>
    rw [reads_arr_iff, Json.Encloses]
    simp [Json.member?]
  | null | bool _ | num _ | str _ =>
    simp [Reads, decode, Json.Record.decode, Located.ofJson, Json.Encloses, Json.member?]

end Envelope

end DatalogClient
