import DatalogClient.Builder
import DatalogClient.Proofs.Document.Literals
import DatalogClient.Proofs.Document.Texts
import DatalogClient.Proofs.Json.Faults

/-!
# How deep documents may nest

A document is read back from its value however deep it nests. From its text it is read back only as
far as texts are read: up to the limit on containers that stand inside one another. Beyond that
limit the text is refused. A map spec takes two containers, the object and the list behind its
attribute, and a document takes four around the elements of a pattern.

## Main definitions

* `AttrSpec.chain` — map specs of one attribute each, one inside the other

## Main results

* `Document.text_read_back_iff_nesting` — which documents are read back from their texts
-/

namespace DatalogClient

open Json (thorough_inSomeForm thorough_each thorough_optional thorough_text)
open Value (marksKind)

/-! ### Decoders overlook no fault -/

theorem FindTerm.thorough_decode : FindTerm.decode.Thorough := thorough_inSomeForm _ _

theorem Value.thorough_decode : Value.decode.Thorough := thorough_inSomeForm _ _

theorem Binding.thorough_decode : Binding.decode.Thorough := by
  intro t fault h
  obtain ⟨p, hp⟩ := thorough_inSomeForm "BindingFormWire" shapeOf? t fault h
  exact ⟨p, by rw [decode, hp]⟩

theorem Clause.thorough_decode : Clause.decode.Thorough := by
  intro t fault h
  refine ⟨⟨.refused "where clause must be a list or a rule usage", none⟩, ?_⟩
  simp only [decode, h, Except.toOption, Option.bind_none]

namespace Document

theorem thorough_fields : ∀ field ∈ record.fields, field.Thorough := by
  intro field hfield
  simp only [record, List.mem_cons, List.not_mem_nil, or_false] at hfield
  -- One case for each section, in the order of the record.
  obtain rfl | rfl | rfl | rfl | rfl := hfield
  · exact Json.RecordField.thorough_of _ _ _ _ (thorough_each FindTerm.thorough_decode)
  · exact Json.RecordField.thorough_of _ _ _ _ (thorough_optional (thorough_each thorough_text))
  · exact Json.RecordField.thorough_of _ _ _ _
      (thorough_optional (thorough_each Binding.thorough_decode))
  · exact Json.RecordField.thorough_of _ _ _ _
      (thorough_optional (thorough_each Clause.thorough_decode))
  · exact Json.RecordField.thorough_of _ _ _ _
      (thorough_optional (thorough_each Value.thorough_decode))

/-! ### Texts of documents -/

variable {d : Document}

/-- The members of the wire form bear the names of sections. -/
theorem name_mem_of_mem_wire {members : List (String × Json)} (hwire : d.wire = .obj members) :
    ∀ member ∈ members, member.1 ∈ record.fields.map (·.name) := by
  have hname : ∀ {α : Type} {name : String} {write : α → Json} {items : Option (List α)}
      {member : String × Json}, member ∈ memberIf name write items → member.1 = name := by
    intro α name write items member hmember
    cases items with
    | none => cases hmember
    | some items =>
      rw [List.mem_singleton.mp hmember]
  have hfields : record.fields.map (·.name) = sectionNames := rfl
  obtain rfl := Json.obj.inj hwire
  intro member hmember
  rw [hfields, mem_sectionNames]
  simp only [List.mem_cons, List.mem_append] at hmember
  obtain rfl | ((hkeys | hinputs) | hclauses) | hargs := hmember
  · exact .inl rfl
  · exact .inr (.inl (hname hkeys))
  · exact .inr (.inr (.inl (hname hinputs)))
  · exact .inr (.inr (.inr (.inl (hname hclauses))))
  · exact .inr (.inr (.inr (.inr (hname hargs))))

/-- A document that nests within the limit is read back from its text. -/
theorem ofText_text_of_nesting_le (hfloat : d.Floatless) (hd : d.Canonical marksKind)
    (h : d.wire.nesting ≤ Json.nestingLimit) : ofText d.text = .ok d := by
  have hwire : d.toJson = d.wire := toJson_eq_wire fun p hp spec hspec =>
    AttrSpec.Canonical.entriesDiffer (hd.find _ hp spec hspec)
  have hvalue : decode (.ofJson d.wire) = .ok d := hwire ▸ (reads_toJson_iff d).mpr hd
  have htext : Json.decodeText decode d.text = .ok d :=
    Json.decodeText_compact indifferent_decode (whole_wire hfloat) h hvalue
  rw [ofText, htext]
  rfl

/-- The text of a document that nests beyond the limit is refused. -/
theorem exists_ofText_text_eq_error (hfloat : d.Floatless)
    (h : Json.nestingLimit < d.wire.nesting) : ∃ e, ofText d.text = .error e := by
  obtain ⟨members, hmembers⟩ : ∃ members, d.wire = .obj members := ⟨_, rfl⟩
  have hwhole := whole_wire hfloat
  rw [hmembers] at h hwhole
  obtain ⟨start, tree, hroot, hfaulty⟩ :=
    Json.faulty_ofText_compact 126 hwhole (Nat.lt_of_succ_lt_succ h)
  obtain ⟨p, hp⟩ := Json.Record.fails_of_faultyUpTo thorough_fields tree
    (hfaulty _ (name_mem_of_mem_wire hmembers)) record.blank
  have hdecode : decode (Json.LocatedText.ofText Json.nestingLimit d.text).root = .error p := by
    rw [text, hmembers]
    exact hroot ▸ hp
  refine ⟨⟨p⟩, ?_⟩
  rw [ofText, Json.decodeText]
  simp only [hdecode]
  rfl

end Document

/-! ### Map specs inside map specs -/

namespace AttrSpec

/-- Map specs of one attribute each, one inside the other, around the spec of a text. -/
def chain (names : List String) (last : String) : AttrSpec :=
  names.foldr (fun name spec => nested name [spec]) (ofText last)

variable (names : List String) (last : String)

theorem chain_cons (name : String) :
    chain (name :: names) last = nested name [chain names last] := rfl

/-- What holds of the spec of a text and goes on to map specs of one attribute holds of chains. -/
theorem every_chain {p : AttrSpec → Prop} (hlast : (ofText last).Every p)
    (hnested : ∀ name spec, p (nested name [spec])) : (chain names last).Every p := by
  induction names with
  | nil => exact hlast
  | cons name names ih =>
    rw [chain_cons, nested, every_attrs]
    refine ⟨hnested name _, ?_⟩
    simp only [MapTarget.specs, List.forall_mem_singleton]
    exact ih

theorem canonical_chain (heads : Value → Bool) : (chain names last).Canonical heads := by
  apply every_chain
  · rw [ofText]
    split_ifs with hlast
    · trivial
    · exact hlast
  · -- One entry is not the two of a selector.
    intro name spec
    exact ⟨List.nodup_singleton name, fun hperm => absurd hperm.length_eq (by simp)⟩

theorem everyLiteral_chain (p : Value → Prop) :
    (chain names last).Every (EveryLiteralHere p) := by
  apply every_chain
  · rw [ofText]
    split_ifs <;> trivial
  · intro name spec
    trivial

/-- Every map spec takes the object and the list of its pattern. -/
theorem nesting_chain : (chain names last).toJson.nesting = 2 * names.length := by
  induction names with
  | nil =>
    rw [chain, List.foldr_nil, ofText]
    split_ifs <;> rfl
  | cons name names ih =>
    rw [chain_cons, nested]
    simp only [toJson, MapSpec.toJson, MapSpec.entriesToJson, MapTarget.toJson, patternToJson,
      Json.nesting, Json.nestingOfMembers, Json.nestingOfItems, ih, List.length_cons, Nat.max_zero]
    omega

end AttrSpec

namespace Document

/-- The query that pulls a chain of map specs of one entity. -/
def chained (entity : String) (names : List String) (last : String) : Document :=
  (Builder.pullOne entity [AttrSpec.chain names last]).build

variable (entity : String) (names : List String) (last : String)

theorem canonical_chained : (chained entity names last).Canonical marksKind where
  find := by
    simp only [chained, Builder.pullOne, Builder.build, List.forall_mem_cons]
    exact ⟨fun spec hspec => List.mem_singleton.mp hspec ▸ AttrSpec.canonical_chain names last _,
      trivial, by simp⟩
  inputs := by simp [chained, Builder.pullOne, Builder.build]
  clauses := by simp [chained, Builder.pullOne, Builder.build]
  args := by simp [chained, Builder.pullOne, Builder.build]

theorem floatless_chained : (chained entity names last).Floatless where
  find := by
    simp only [chained, Builder.pullOne, Builder.build, List.forall_mem_cons]
    exact ⟨fun spec hspec => List.mem_singleton.mp hspec ▸ AttrSpec.everyLiteral_chain names last _,
      trivial, by simp⟩
  clauses := by simp [chained, Builder.pullOne, Builder.build]
  args := by simp [chained, Builder.pullOne, Builder.build]

/-- Around its pattern the query has the document, the list of terms, the pull and the pattern. -/
theorem nesting_chained : (chained entity names last).wire.nesting = 4 + 2 * names.length := by
  simp only [chained, Builder.pullOne, Builder.build, wire, memberIf, List.append_nil,
    List.map_cons, List.map_nil, FindTerm.toJson, Pull.toJson, AttrSpec.patternToJson, Json.nesting,
    Json.nestingOfMembers, Json.nestingOfItems, AttrSpec.nesting_chain, Nat.max_zero]
  omega

/-- A canonical document without floating-point numbers is read back from its text exactly if at
most 127 containers stand inside one another in its wire form, and otherwise its text is refused;
from its value it is read back in any case. So chains of up to 61 map specs are read back from
their texts. -/
theorem text_read_back_iff_nesting :
    (∀ d : Document, d.Floatless → d.Canonical marksKind →
      (d.wire.nesting ≤ 127 → ofText d.text = .ok d) ∧
        (128 ≤ d.wire.nesting → ∃ e, ofText d.text = .error e) ∧
        ofJson d.toJson = .ok d) ∧
      ∀ (entity : String) (names : List String) (last : String),
        ofText (chained entity names last).text = .ok (chained entity names last) ↔
          names.length ≤ 61 := by
  constructor
  · intro d hfloat hd
    exact ⟨ofText_text_of_nesting_le hfloat hd, exists_ofText_text_eq_error hfloat,
      (ofJson_toJson_iff d).mpr hd⟩
  · intro entity names last
    have hfloat := floatless_chained entity names last
    have hnesting := nesting_chained entity names last
    have hlimit : Json.nestingLimit = 127 := rfl
    constructor
    · intro hread
      by_contra hlong
      obtain ⟨e, he⟩ := exists_ofText_text_eq_error hfloat (by omega)
      cases he.symm.trans hread
    · intro hshort
      exact ofText_text_of_nesting_le hfloat (canonical_chained entity names last) (by omega)

/-- A chain of two map specs is read back, and a chain of 62 is not. -/
theorem chained_read_back :
    (chained "?e" ["a/b", "c/d"] "e/f").Floatless ∧
      (chained "?e" ["a/b", "c/d"] "e/f").Canonical marksKind ∧
      (chained "?e" ["a/b", "c/d"] "e/f").wire.nesting = 8 ∧
      ofText (chained "?e" ["a/b", "c/d"] "e/f").text =
        .ok (chained "?e" ["a/b", "c/d"] "e/f") ∧
      ¬ ofText (chained "?e" (List.replicate 62 "a/b") "e/f").text =
        .ok (chained "?e" (List.replicate 62 "a/b") "e/f") := by
  have hfloat := floatless_chained "?e" ["a/b", "c/d"] "e/f"
  have hd := canonical_chained "?e" ["a/b", "c/d"] "e/f"
  have hnesting := nesting_chained "?e" ["a/b", "c/d"] "e/f"
  refine ⟨hfloat, hd, hnesting, ?_, ?_⟩
  · exact (text_read_back_iff_nesting.1 _ hfloat hd).1 (hnesting ▸ by decide)
  · rw [text_read_back_iff_nesting.2, List.length_replicate]
    decide

end Document

end DatalogClient
