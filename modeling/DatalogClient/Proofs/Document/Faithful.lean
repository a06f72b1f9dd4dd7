import DatalogClient.Proofs.Document.Clauses

/-!
# Clauses and bindings of literals

Builders take clauses from lists of literals and bindings from literals, without a wire form
between. Clauses so taken are written as the lists were, and bindings are the same as if the
literals had been written and read as bindings. Only that a text alone might be the name of an
attribute: then no binding is taken from it, but one is read.

## Main definitions

* `Binding.BeginsBound` — how texts begin that do not pass for the name of an attribute

## Main results

* `Clause.toJson_ofItems` — the clause of a list is written as the list
* `Binding.reads_toJson_literal_iff` — the literals that are written like bindings
* `Clause.ofItems_faithful` — both for all lists and literals
-/

namespace DatalogClient

open Json (Reads)

namespace Binding

variable {b : Binding} {v : Value}

/-! ### Texts alone -/

/-- The text is a blank, or begins with the mark of variables, of sources or of rules. -/
def BeginsBound (text : String) : Prop :=
  text = "_" ∨ ∃ mark ∈ ['?', '$', '%'], ∃ rest, text.toList = mark :: rest

theorem looksLikeVariable_iff {text : String} :
    looksLikeVariable text = true ↔ BeginsBound text := by
  rw [looksLikeVariable, BeginsBound, Bool.or_eq_true, beq_iff_eq]
  refine or_congr Iff.rfl ?_
  split
  · rename_i rest htext
    simp [htext]
  · rename_i rest htext
    simp [htext]
  · rename_i rest htext
    simp [htext]
  · rename_i hlogic hsource hrules
    refine iff_of_false Bool.false_ne_true ?_
    rintro ⟨mark, hmark, rest, htext⟩
    simp only [List.mem_cons, List.not_mem_nil, or_false] at hmark
    rcases hmark with rfl | rfl | rfl
    · exact hlogic rest htext
    · exact hsource rest htext
    · exact hrules rest htext

theorem looksBound_iff : b.LooksBound ↔ ∀ var, b = .scalar var → BeginsBound var := by
  cases b with
  | scalar var => simp [LooksBound, looksLikeVariable_iff]
  | tuple vars => simp [LooksBound]
  | collection var => simp [LooksBound]
  | relation vars => simp [LooksBound]

/-! ### Literals written like bindings -/

theorem eq_map_text_of_map_toJson {values : List Value} {texts : List String}
    (h : values.map Value.toJson = texts.map .str) : values = texts.map .text := by
  induction texts generalizing values with
  | nil => exact List.map_eq_nil_iff.mp h
  | cons text texts ih =>
    obtain ⟨first, rest, rfl, hfirst, hrest⟩ := List.map_eq_cons_iff.mp h
    rw [Value.toJson_eq_str_iff.mp hfirst, ih hrest, List.map_cons]

theorem toJson_eq_texts_iff {texts : List String} :
    v.toJson = .arr (texts.map .str) ↔ v = .list (texts.map .text) := by
  rw [Value.toJson_eq_arr_iff]
  constructor
  · rintro ⟨values, rfl, hvalues⟩
    rw [eq_map_text_of_map_toJson hvalues]
  · rintro rfl
    exact ⟨_, rfl, by rw [List.map_map]; rfl⟩

/-- A binding has the wire form of one literal only. -/
theorem toJson_eq_iff : v.toJson = b.toJson ↔ v = b.literal := by
  cases b with
  | scalar var => exact Value.toJson_eq_str_iff
  | tuple vars => exact toJson_eq_texts_iff
  | collection var => exact @toJson_eq_texts_iff v [var, collectionMark]
  | relation vars =>
    rw [toJson, literal, Value.toJson_eq_arr_iff]
    constructor
    · rintro ⟨values, rfl, hvalues⟩
      obtain ⟨row, rest, rfl, hrow, hrest⟩ := List.map_eq_cons_iff.mp hvalues
      rw [toJson_eq_texts_iff.mp hrow, List.map_eq_nil_iff.mp hrest]
    · rintro rfl
      exact ⟨_, rfl, by rw [List.map_cons, List.map_nil, toJson_eq_texts_iff.mpr rfl]⟩

/-- What is read as a binding is the wire form of that binding. -/
theorem toJson_of_reads {j : Json} (h : Reads decode j b) : b.toJson = j := by
  rcases reads_decode_iff.mp h with ⟨var, rfl, rfl⟩ | ⟨texts, rfl, rfl⟩ | ⟨row, rfl, rfl⟩
  · rfl
  · rw [← toJson_literal, literal_ofTexts, toJson_eq_texts_iff.mpr rfl]
  · rfl

/-- A binding is read from the wire form of its literal and of no other one. -/
theorem reads_toJson_literal_iff : Reads decode v.toJson b ↔ v = b.literal ∧ b.Canonical := by
  constructor
  · intro h
    exact ⟨toJson_eq_iff.mp (toJson_of_reads h).symm, canonical_of_decode h⟩
  · rintro ⟨rfl, hcanonical⟩
    rw [toJson_literal]
    exact (reads_toJson_iff b).mpr hcanonical

end Binding

namespace Clause

theorem toJson_ofItems (items : List Value) :
    (ofItems items).toJson = (Value.list items).toJson := by
  rw [toJson_eq_arr (ofItems_ne_rule items), literals_ofItems, Value.toJson,
    Value.listToJson_eq_map]

/-- The clause of a list is written as the list. The binding of a literal is the one that is read
from its wire form, provided that it does not pass for the name of an attribute. -/
theorem ofItems_faithful :
    (∀ items : List Value, (ofItems items).toJson = (Value.list items).toJson) ∧
      ∀ (v : Value) (b : Binding), Binding.ofValue? v = some b ↔
        Binding.decode (.ofJson v.toJson) = .ok b ∧
          ∀ var, b = .scalar var → Binding.BeginsBound var := by
  refine ⟨toJson_ofItems, fun v b => ?_⟩
  calc Binding.ofValue? v = some b
    _ ↔ (v = b.literal ∧ b.Canonical) ∧ b.LooksBound := by
      rw [Binding.ofValue?_eq_some_iff, and_assoc]
    _ ↔ Reads Binding.decode v.toJson b ∧ ∀ var, b = .scalar var → Binding.BeginsBound var := by
      rw [← Binding.reads_toJson_literal_iff, Binding.looksBound_iff]

end Clause

end DatalogClient
