import DatalogClient.Document.Binding
import DatalogClient.Proofs.Value.Canonical

/-!
# Bindings that are read back

A list of texts is a tuple unless it is a pair that ends in the mark of collections, so a tuple
that ends so is read back as a collection. Every other binding is read back.

A binding may also be taken from a literal, which is then the only literal it is taken from.

## Main definitions

* `Binding.Canonical` — the binding is no tuple that passes for a collection
* `Binding.literal` — the literal that has the wire form of a binding
* `Binding.LooksBound` — the binding does not pass for the name of an attribute

## Main results

* `Binding.reads_decode_iff` — the three wire forms of bindings
* `Binding.reads_toJson_iff` — a binding is read back exactly if it is canonical
* `Binding.ofValue?_eq_some_iff` — the literals that bindings are taken from
-/

namespace DatalogClient

open Json (Reads)

namespace Binding

variable {b : Binding}

/-! ### Lists of texts -/

theorem text?_eq_some_iff {j : Json} {s : String} : j.text? = some s ↔ j = .str s := by
  cases j <;> simp [Json.text?]

theorem stringsOf?_eq_some_iff {items : List Json} {texts : List String} :
    stringsOf? items = some texts ↔ items = texts.map .str :=
  Json.readList_eq_some_iff_eq_map Json.text? stringsOf? rfl
    (fun item rest => by cases item <;> rfl) fun _ _ => text?_eq_some_iff

/-- The texts of a list of strings. -/
def rowOf? : Json → Option (List String)
  | .arr items => stringsOf? items
  | _ => none

theorem rowOf?_eq_some_iff {j : Json} {row : List String} :
    rowOf? j = some row ↔ j = .arr (row.map .str) := by
  cases j <;> simp [rowOf?, stringsOf?_eq_some_iff]

theorem rowsOf?_eq_some_iff {items : List Json} {rows : List (List String)} :
    rowsOf? items = some rows ↔ items = rows.map fun row => .arr (row.map .str) :=
  Json.readList_eq_some_iff_eq_map rowOf? rowsOf? rfl
    (fun item rest => by
      cases item with
      | arr inner =>
        rw [rowsOf?, rowOf?]
        cases stringsOf? inner <;> rfl
      | null => rfl
      | bool b => rfl
      | num n => rfl
      | str s => rfl
      | obj members => rfl) fun _ _ => rowOf?_eq_some_iff

theorem textsOf?_eq_some_iff {items : List Value} {texts : List String} :
    textsOf? items = some texts ↔ items = texts.map .text :=
  Json.readList_eq_some_iff_eq_map Value.text? textsOf? rfl
    (fun item rest => by cases item <;> rfl) fun item _ => by
      cases item <;> simp [Value.text?]

/-! ### Flat lists -/

/-- The binding is no tuple of a pair that ends in the mark of collections. -/
def Canonical (b : Binding) : Prop := ∀ var, b ≠ .tuple [var, collectionMark]

theorem canonical_ofTexts (texts : List String) : (ofTexts texts).Canonical := by
  intro var h
  rw [ofTexts.eq_def] at h
  split at h
  · split_ifs at h with hmark
    simp only [tuple.injEq, List.cons.injEq, and_true] at h
    exact hmark h.2
  · rename_i hpair
    exact hpair _ _ (tuple.inj h)

theorem ofTexts_eq_tuple {vars : List String} (h : (Binding.tuple vars).Canonical) :
    ofTexts vars = .tuple vars := by
  rw [ofTexts.eq_def]
  split
  · rename_i var mark
    have hmark : mark ≠ collectionMark := by
      intro hmark
      subst hmark
      exact h var rfl
    rw [if_neg hmark]
  · rfl

/-! ### Reading -/

theorem shapeOf?_eq_text_iff {j : Json} {var : String} :
    shapeOf? j = some (.text var) ↔ j = .str var := by
  cases j with
  | arr items =>
    rw [shapeOf?]
    cases stringsOf? items <;> simp
  | str s => simp [shapeOf?]
  | null => simp [shapeOf?]
  | bool b => simp [shapeOf?]
  | num n => simp [shapeOf?]
  | obj members => simp [shapeOf?]

theorem shapeOf?_eq_flat_iff {j : Json} {texts : List String} :
    shapeOf? j = some (.flat texts) ↔ j = .arr (texts.map .str) := by
  cases j with
  | arr items =>
    rw [shapeOf?, Json.arr.injEq, ← stringsOf?_eq_some_iff]
    cases stringsOf? items <;> simp
  | str s => simp [shapeOf?]
  | null => simp [shapeOf?]
  | bool b => simp [shapeOf?]
  | num n => simp [shapeOf?]
  | obj members => simp [shapeOf?]

/-- A single row is no list of strings, so it is read as a row. -/
theorem shapeOf?_eq_nested_iff {j : Json} {row : List String} :
    shapeOf? j = some (.nested [row]) ↔ j = .arr [.arr (row.map .str)] := by
  constructor
  · intro h
    match j, h with
    | .arr items, h =>
      rw [shapeOf?] at h
      cases hstrings : stringsOf? items with
      | some texts => simp [hstrings] at h
      | none =>
        rw [hstrings, Option.map_eq_some_iff] at h
        obtain ⟨rows, hrows, hshape⟩ := h
        obtain rfl := Shape.nested.inj hshape
        rw [rowsOf?_eq_some_iff.mp hrows, List.map_cons, List.map_nil]
  · intro hj
    subst hj
    have hrows : rowsOf? [.arr (row.map .str)] = some [row] := rowsOf?_eq_some_iff.mpr rfl
    have hstrings : stringsOf? [.arr (row.map .str)] = none := rfl
    rw [shapeOf?, hstrings, hrows, Option.map_some]

/-- A binding is read from a text, from a list of texts, or from a list of one list of texts. -/
theorem reads_decode_iff {j : Json} :
    Reads decode j b ↔
      (∃ var, j = .str var ∧ b = .scalar var) ∨
        (∃ texts, j = .arr (texts.map .str) ∧ b = ofTexts texts) ∨
        ∃ row, j = .arr [.arr (row.map .str)] ∧ b = .relation row := by
  have hshape : Reads decode j b ↔ ∃ shape, shapeOf? j = some shape ∧
      ((∃ var, shape = .text var ∧ b = .scalar var) ∨
        (∃ texts, shape = .flat texts ∧ b = ofTexts texts) ∨
        ∃ row, shape = .nested [row] ∧ b = .relation row) := by
    rw [Reads, decode, Json.inSomeForm, Json.whole_ofJson]
    cases hshape : shapeOf? j with
    | none => simp [hshape]
    | some shape =>
      -- Lists of no row and of several rows have a shape, but no binding has it.
      simp only [hshape, Option.some.injEq, exists_eq_left']
      cases shape with
      | text var => simp [eq_comm]
      | flat texts => simp [eq_comm]
      | nested rows =>
        cases rows with
        | nil => simp
        | cons row rest => cases rest <;> simp [eq_comm]
  rw [hshape]
  constructor
  · intro h
    obtain ⟨shape, hj, hbinding⟩ := h
    rcases hbinding with ⟨var, rfl, hb⟩ | ⟨texts, rfl, hb⟩ | ⟨row, rfl, hb⟩
    · exact .inl ⟨var, shapeOf?_eq_text_iff.mp hj, hb⟩
    · exact .inr (.inl ⟨texts, shapeOf?_eq_flat_iff.mp hj, hb⟩)
    · exact .inr (.inr ⟨row, shapeOf?_eq_nested_iff.mp hj, hb⟩)
  · intro h
    rcases h with ⟨var, hj, hb⟩ | ⟨texts, hj, hb⟩ | ⟨row, hj, hb⟩
    · exact ⟨_, shapeOf?_eq_text_iff.mpr hj, .inl ⟨var, rfl, hb⟩⟩
    · exact ⟨_, shapeOf?_eq_flat_iff.mpr hj, .inr (.inl ⟨texts, rfl, hb⟩)⟩
    · exact ⟨_, shapeOf?_eq_nested_iff.mpr hj, .inr (.inr ⟨row, rfl, hb⟩)⟩

/-- A binding that was read is canonical. -/
theorem canonical_of_decode {j : Json} (h : Reads decode j b) : b.Canonical := by
  rcases reads_decode_iff.mp h with ⟨var, -, rfl⟩ | ⟨texts, -, rfl⟩ | ⟨row, -, rfl⟩
  · simp [Canonical]
  · exact canonical_ofTexts texts
  · simp [Canonical]

theorem distinct_toJson (b : Binding) : b.toJson.Distinct := by
  have htexts : ∀ texts : List String, (Json.arr (texts.map .str)).Distinct := by
    intro texts
    rw [Json.distinct_arr]
    intro j hj
    obtain ⟨text, -, rfl⟩ := List.mem_map.mp hj
    trivial
  cases b with
  | scalar var => trivial
  | tuple vars => exact htexts vars
  | collection var => exact htexts [var, collectionMark]
  | relation vars =>
    rw [toJson, Json.distinct_arr, List.forall_mem_singleton]
    exact htexts vars

/-- A binding is read back from its wire form exactly if it is canonical. -/
theorem reads_toJson_iff (b : Binding) : Reads decode b.toJson b ↔ b.Canonical := by
  refine ⟨canonical_of_decode, fun h => reads_decode_iff.mpr ?_⟩
  cases b with
  | scalar var => exact .inl ⟨var, rfl, rfl⟩
  | tuple vars => exact .inr (.inl ⟨vars, rfl, (ofTexts_eq_tuple h).symm⟩)
  | collection var => exact .inr (.inl ⟨[var, collectionMark], rfl, rfl⟩)
  | relation vars => exact .inr (.inr ⟨vars, rfl, rfl⟩)

/-! ### Literals -/

/-- The literal that has the wire form of the binding. -/
def literal : Binding → Value
  | scalar var => .text var
  | tuple vars => .list (vars.map .text)
  | collection var => .list [.text var, .text collectionMark]
  | relation vars => .list [.list (vars.map .text)]

theorem toJson_literal (b : Binding) : b.literal.toJson = b.toJson := by
  cases b <;> simp [literal, toJson, Value.toJson, Function.comp_def]

theorem literal_ofTexts (texts : List String) :
    (ofTexts texts).literal = .list (texts.map .text) := by
  rw [ofTexts.eq_def]
  split
  · split_ifs with hmark
    · simp [literal, hmark]
    · rfl
  · rfl

/-- A text alone looks like a variable. -/
def LooksBound : Binding → Prop
  | scalar var => looksLikeVariable var = true
  | _ => True

theorem ofValue?_texts (texts : List String) :
    ofValue? (.list (texts.map .text)) = some (ofTexts texts) := by
  have htexts : textsOf? (texts.map .text) = some texts := textsOf?_eq_some_iff.mpr rfl
  -- A list of one item might be a row, but a text is no list.
  match texts with
  | [] => rfl
  | [a] => rfl
  | a :: c :: rest =>
    rw [List.map_cons, List.map_cons, ofValue?, ← List.map_cons, ← List.map_cons, htexts,
      Option.map_some]
    simp

/-- A binding is taken from its literal, if it is canonical and does not pass for an attribute. -/
theorem ofValue?_eq_some_iff {v : Value} :
    ofValue? v = some b ↔ v = b.literal ∧ b.Canonical ∧ b.LooksBound := by
  constructor
  · intro h
    rw [ofValue?.eq_def] at h
    split at h
    · split_ifs at h with hlooks
      obtain rfl := Option.some.inj h
      exact ⟨rfl, by simp [Canonical], hlooks⟩
    · obtain ⟨row, hrow, rfl⟩ := Option.map_eq_some_iff.mp h
      rw [textsOf?_eq_some_iff.mp hrow]
      exact ⟨rfl, by simp [Canonical], trivial⟩
    · obtain ⟨texts, htexts, rfl⟩ := Option.map_eq_some_iff.mp h
      have hlooks : (ofTexts texts).LooksBound := by
        rw [ofTexts.eq_def]
        split
        · split_ifs <;> trivial
        · trivial
      rw [textsOf?_eq_some_iff.mp htexts]
      exact ⟨(literal_ofTexts texts).symm, canonical_ofTexts texts, hlooks⟩
    · simp at h
  · intro h
    obtain ⟨rfl, hcanonical, hlooks⟩ := h
    cases b with
    | scalar var =>
      have hvar : looksLikeVariable var = true := hlooks
      rw [literal, ofValue?, if_pos hvar]
    | tuple vars => rw [literal, ofValue?_texts, ofTexts_eq_tuple hcanonical]
    | collection var => rfl
    | relation vars =>
      have htexts : textsOf? (vars.map .text) = some vars := textsOf?_eq_some_iff.mpr rfl
      rw [literal, ofValue?, htexts, Option.map_some]

end Binding

end DatalogClient
