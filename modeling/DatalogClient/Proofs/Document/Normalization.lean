import DatalogClient.Proofs.Document.RoundTrip

/-!
# Reading normalizes

Documents may be written in many ways that are read alike: sections that are null or stand in any
order, unknown members, typed texts and rules as lists, kinds by number, integers that are too
great. What was read is canonical, however it was written, and so it is read back as it is from
then on.

## Main results

* `Document.canonical_of_decode` — a document that was read is canonical
* `Document.ofJson_toJson_of_ofJson` — a document that was read is read back
-/

namespace DatalogClient

open Json (Reads)
open Value (marksKind)

namespace Document

/-- What has been read of each section is canonical. -/
structure Draft.Canonical (draft : Draft) : Prop where
  find : ∀ term ∈ draft.find.getD [], term.Canonical marksKind
  inputs : ∀ b ∈ draft.inputs.join.getD [], b.Canonical
  clauses : ∀ c ∈ draft.clauses.join.getD [], c.Canonical marksKind
  args : ∀ v ∈ draft.args.join.getD [], v.Canonical marksKind

/-- Every field keeps drafts canonical, whatever it is filled from. -/
theorem canonical_of_fill {field : Json.RecordField Draft} (hfield : field ∈ record.fields)
    (value : Json) (draft next : Draft)
    (hvalue : value.Every fun j => j.NamesOnce ∧ j.FiniteNumber) (hdraft : draft.Canonical)
    (hfill : field.fill (.ofJson value) draft = .ok next) : next.Canonical := by
  -- A field changes its own section of the draft only, and what it puts there was read.
  simp only [record, List.mem_cons, List.not_mem_nil, or_false] at hfield
  rcases hfield with rfl | rfl | rfl | rfl | rfl
  · obtain ⟨terms, hread, rfl⟩ := Json.RecordField.fill_of_iff.mp hfill
    have hterms := Json.forall_of_reads_each FindTerm.canonical_of_decode hvalue hread
    exact { hdraft with find := hterms }
  · obtain ⟨keys, -, rfl⟩ := Json.RecordField.fill_of_iff.mp hfill
    exact { hdraft with }
  · obtain ⟨inputs, hread, rfl⟩ := Json.RecordField.fill_of_iff.mp hfill
    have hinputs := Json.forall_of_reads_optional
      (fun j b _ hb => Binding.canonical_of_decode hb) hvalue hread
    exact { hdraft with inputs := hinputs }
  · obtain ⟨clauses, hread, rfl⟩ := Json.RecordField.fill_of_iff.mp hfill
    have hclauses := Json.forall_of_reads_optional Clause.canonical_of_decode
      (Json.every_and_iff.mp hvalue).2 hread
    exact { hdraft with clauses := hclauses }
  · obtain ⟨args, hread, rfl⟩ := Json.RecordField.fill_of_iff.mp hfill
    have hargs := Json.forall_of_reads_optional Value.canonical_of_decode
      (Json.every_and_iff.mp hvalue).2 hread
    exact { hdraft with args := hargs }

/-- A document that was read is canonical. -/
theorem canonical_of_decode {j : Json} (hd : j.Distinct) (hf : j.Finite) {d : Document}
    (h : Reads decode j d) : d.Canonical marksKind := by
  have hblank : Draft.Canonical record.blank := by
    constructor <;> simp [record]
  -- Members may stand in any order and need not be known, so only the final draft is spoken of.
  obtain ⟨⟨find, keys, inputs, clauses, args⟩, hdraft, hbuild⟩ :=
    Json.Record.invariant_of_decode hblank (fun _ hfield => canonical_of_fill hfield)
      (Json.every_and_iff.mpr ⟨hd, hf⟩) h
  cases find with
  | none => cases hbuild
  | some find =>
    obtain rfl := Except.ok.inj hbuild
    exact ⟨hdraft.find, hdraft.inputs, hdraft.clauses, hdraft.args⟩

/-- A document that was read is read back from its value as it is. -/
theorem ofJson_toJson_of_ofJson {j : Json} (hd : j.Distinct) (hf : j.Finite) {d : Document}
    (h : ofJson j = .ok d) : ofJson d.toJson = .ok d := by
  rw [ofJson_eq_ok_iff] at h ⊢
  exact (reads_toJson_iff d).mpr (canonical_of_decode hd hf h)

/-- A document with null sections, a member of no meaning, a rule and typed texts as lists, a kind
by number, and a great integer. -/
def unusualJson : Json :=
  .obj [("args", .arr [.arr [.int 1, .str "x"], .int 18446744073709551615]),
    ("in", .null),
    ("note", .str "unknown"),
    ("where", .arr [.arr [.str "rule", .arr [.str "r", .arr [.str "uuid", .str "y"]]],
      .arr [.arr [.str "f"], .arr [.str "?x", .str "..."]]]),
    ("find", .arr [.obj [("entity", .str "?e"), ("limit", .int 3),
      ("pull", .arr [.obj [("selector", .arr [.str "*"]), ("key", .str "a/b")]])]])]

/-- What it is read as. -/
def unusual : Document where
  find := [.pull ⟨[.map (.keyed (.attr "a/b") [.wildcard])], "?e"⟩]
  clauses := some [.rule ⟨"r", [.typed ⟨.uuid, "y"⟩]⟩, .function ⟨"f", []⟩ (.collection "?x")]
  args := some [.typed ⟨.keyword, "x"⟩, .float (18446744073709551615 : UInt64).toFloat]

theorem unusual_read_back : unusualJson.Distinct ∧ unusualJson.Finite ∧
    ofJson unusualJson = .ok unusual ∧ ofJson unusual.toJson = .ok unusual := by
  have hd : unusualJson.Distinct := by
    simp [unusualJson, Json.Distinct, Json.NamesOnce, Json.Every, Json.EveryItem, Json.EveryMember,
      Json.int]
  have hf : unusualJson.Finite := by
    simp [unusualJson, Json.Finite, Json.FiniteNumber, Json.Every, Json.EveryItem, Json.EveryMember,
      Json.int]
  have hread : ofJson unusualJson = .ok unusual := rfl
  exact ⟨hd, hf, hread, ofJson_toJson_of_ofJson hd hf hread⟩

end Document

end DatalogClient
