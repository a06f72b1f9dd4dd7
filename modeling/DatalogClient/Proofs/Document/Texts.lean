import DatalogClient.Document.Wire
import DatalogClient.Proofs.Json.Nesting

/-!
# Reading from a text and from a value

Documents and their parts are read from texts, or from values that texts were read into before.
The decoders are the same, and none of them looks at places but to tell where a problem is. So a
text in which no name repeats is read as its value is: both are refused, or both are the same
document.

## Main results

* `Clause.indifferent_decode`, `MapSpec.indifferent_decode`, `Document.indifferent_decode` and
  others — the decoders are indifferent to places
* `Document.readings_agree` — texts are read as their values are
-/

namespace DatalogClient

open Json

theorem Value.indifferent_decode : Value.decode.Indifferent := indifferent_inSomeForm _ _

theorem AttrSpec.indifferent_decode : AttrSpec.decode.Indifferent := indifferent_inSomeForm _ _

theorem FindTerm.indifferent_decode : FindTerm.decode.Indifferent := indifferent_inSomeForm _ _

theorem Binding.indifferent_decode : Binding.decode.Indifferent :=
  indifferent_of_json fun t t' h => by simp only [decode, inSomeForm, whole, h]

theorem Clause.indifferent_decode : Clause.decode.Indifferent :=
  indifferent_of_json fun t t' h => by simp only [decode, h]

namespace MapSpec

/-- The values of members that show some entries, each taken as a whole. -/
theorem decodeMembers_of_shows {members : Members} {entries : List (String × Json)}
    (h : members.Shows entries) : ∃ stop, decodeMembers members =
      .ok (entries.map fun entry => (entry.1, entry.2.collapse), stop) := by
  induction entries generalizing members with
  | nil =>
    obtain ⟨stop, rfl⟩ := Members.shows_nil_iff.mp h
    exact ⟨stop, rfl⟩
  | cons entry entries ih =>
    obtain ⟨_, _, value, _, rest, rfl, hvalue, hrest⟩ := Members.shows_cons_iff.mp h
    obtain ⟨stop, hstop⟩ := ih hrest
    refine ⟨stop, ?_⟩
    simp only [decodeMembers, whole, hvalue.json_eq, hstop, Except.map, List.map_cons]

theorem indifferent_decode : MapSpec.decode.Indifferent := by
  intro t t' j ht ht'
  obtain ⟨_, _, _, _, _, rfl, rfl⟩ | ⟨_, _, _, _, _, rfl, rfl, -⟩ |
    ⟨_, _, _, _, entries, rfl, rfl, hm, hm'⟩ := ht.alike ht'
  · rfl
  · rfl
  -- The two readings of the members differ in the place at which problems are told.
  · obtain ⟨stop, hstop⟩ := decodeMembers_of_shows hm
    obtain ⟨stop', hstop'⟩ := decodeMembers_of_shows hm'
    simp only [decode, hstop, hstop']
    cases ofMembers (entries.map fun entry => (entry.1, entry.2.collapse)) <;> rfl

end MapSpec

namespace Document

theorem indifferent_decode : Document.decode.Indifferent := by
  refine Record.indifferent_decode fun field hfield draft => ?_
  simp only [record, List.mem_cons, List.not_mem_nil, or_false] at hfield
  -- One case for each section, in the order of the record.
  obtain rfl | rfl | rfl | rfl | rfl := hfield
  · exact Record.indifferent_of _ _ _ _ (indifferent_each FindTerm.indifferent_decode) draft
  · exact Record.indifferent_of _ _ _ _ (indifferent_optional (indifferent_each indifferent_text))
      draft
  · exact Record.indifferent_of _ _ _ _
      (indifferent_optional (indifferent_each Binding.indifferent_decode)) draft
  · exact Record.indifferent_of _ _ _ _
      (indifferent_optional (indifferent_each Clause.indifferent_decode)) draft
  · exact Record.indifferent_of _ _ _ _
      (indifferent_optional (indifferent_each Value.indifferent_decode)) draft

/-- A text in which no name repeats is read as its value is, be it a document, a spec, a map spec, a
literal or a clause: both readings are refused, or they are the same. -/
theorem readings_agree {text : String} {j : Json} (hj : Json.ofText text = .ok j)
    (hnames : NamesApart text) :
    (ofText text).toOption = (ofJson j).toOption ∧
      (decodeText AttrSpec.decode text).toOption = (AttrSpec.decode (.ofJson j)).toOption ∧
      (decodeText MapSpec.decode text).toOption = (MapSpec.decode (.ofJson j)).toOption ∧
      (decodeText Value.decode text).toOption = (Value.decode (.ofJson j)).toOption ∧
      (decodeText Clause.decode text).toOption = (Clause.decode (.ofJson j)).toOption := by
  have hdocument := toOption_decodeText indifferent_decode hj hnames
  refine ⟨?_, toOption_decodeText AttrSpec.indifferent_decode hj hnames,
    toOption_decodeText MapSpec.indifferent_decode hj hnames,
    toOption_decodeText Value.indifferent_decode hj hnames,
    toOption_decodeText Clause.indifferent_decode hj hnames⟩
  rw [ofText, ofJson, toOption_mapError, toOption_mapError, hdocument]

/-- A pull inside a pull, with a member that documents do not have, as a JSON value. -/
def nestedPull : Json :=
  .obj [("find", .arr [.obj [("pull", .arr [.obj [("a/b", .arr [.str "c/d"])]]),
    ("entity", .str "?e")]]), ("x", .null)]

/-- The nested pull is read from its text. -/
theorem nestedPull_read :
    Json.ofText nestedPull.compact = .ok nestedPull ∧ NamesApart nestedPull.compact ∧
      (ofText nestedPull.compact).toOption =
        some { find := [.pull ⟨[.map (.attrs [("a/b", .pattern [.name "c/d"])])], "?e"⟩] } := by
  have hdistinct : nestedPull.Distinct := by simp [nestedPull]
  have hwhole : nestedPull.Whole := by simp [nestedPull]
  have hlimit : nestedPull.nesting ≤ nestingLimit := by decide
  have hvalue := ofText_compact hwhole hlimit hdistinct
  have hnames := namesApart_compact hwhole hlimit hdistinct
  exact ⟨hvalue, hnames, (readings_agree hvalue hnames).1.trans (by rfl)⟩

end Document

end DatalogClient
