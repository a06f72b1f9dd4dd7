import DatalogClient.Document.Wire
import DatalogClient.Proofs.Document.Clauses
import DatalogClient.Proofs.Pull.Canonical

/-!
# Documents that are read back

A document is read section by section, in whatever order the sections stand. Reading the value of a
document gives the document again if every part is canonical, that is, if no part has the look of
another when it is written; and it gives something else, or nothing, if one is not.

## Main definitions

* `FindTerm.Canonical`, `Document.Canonical` — terms and documents that are read back
* `Document.members` — the members of the value of a document

## Main results

* `Document.ofJson_obj_iff` — a document is read from an object section by section
* `Document.ofJson_toJson_iff` — a document is read back exactly if it is canonical
-/

namespace DatalogClient

open Json (Reads FilledFrom MemberRead)
open Value (marksKind namesKind)

/-! ### Terms -/

namespace FindTerm

/-- A text is no mark, and a pull is canonical. -/
def Canonical (heads : Value → Bool) : FindTerm → Prop
  | var text => text ≠ singleMark ∧ text ≠ manyMark
  | pull p => p.Canonical heads
  | single => True
  | many => True

theorem canonical_ofText (text : String) : (ofText text).Canonical marksKind := by
  rw [ofText]
  split_ifs with hsingle hmany
  · trivial
  · trivial
  · exact ⟨hsingle, hmany⟩

theorem ofText_eq_var {text : String} (h : (var text).Canonical marksKind) :
    ofText text = .var text := by
  rw [ofText, if_neg h.1, if_neg h.2]

/-- A pull is not read from a string. -/
theorem ofJson?_eq_pull_iff {j : Json} {p : Pull} :
    ofJson? j = some (.pull p) ↔ Reads Pull.decode j p := by
  have hpull : ((Pull.decode (.ofJson j)).toOption).map FindTerm.pull = some (.pull p) ↔
      Reads Pull.decode j p := by
    rw [Reads]
    cases Pull.decode (.ofJson j) <;> simp [Except.toOption]
  cases j with
  | str s =>
    refine iff_of_false ?_ ?_
    · rw [ofJson?, ofText]
      split_ifs <;> simp
    · simp [Reads, Pull.decode, Json.Record.decode, Located.ofJson]
  | null => exact hpull
  | bool b => exact hpull
  | num n => exact hpull
  | arr items => exact hpull
  | obj members => exact hpull

/-- A term is read back exactly if it is canonical. -/
theorem ofJson?_toJson_iff (t : FindTerm) :
    ofJson? t.toJson.collapse = some t ↔ t.Canonical marksKind := by
  cases t with
  | var text =>
    rw [toJson, Json.collapse, ofJson?, Option.some_inj]
    constructor
    · intro h
      rw [← h]
      exact canonical_ofText text
    · exact ofText_eq_var
  | pull p => rw [toJson, ofJson?_eq_pull_iff, Pull.reads_toJson_iff, Canonical]
  | single => exact iff_of_true rfl trivial
  | many => exact iff_of_true rfl trivial

/-- A term that was read is canonical. -/
theorem canonical_of_ofJson? {j : Json} (hd : j.Distinct) (hf : j.Finite) {t : FindTerm}
    (h : ofJson? j = some t) : t.Canonical marksKind := by
  cases t with
  | pull p => exact Pull.canonical_of_decode hd hf (ofJson?_eq_pull_iff.mp h)
  | var text =>
    cases j with
    | str s =>
      rw [ofJson?, Option.some_inj] at h
      rw [← h]
      exact canonical_ofText s
    | null => simp [ofJson?] at h
    | bool b => simp [ofJson?] at h
    | num n => simp [ofJson?] at h
    | arr items => simp [ofJson?] at h
    | obj members => simp [ofJson?] at h
  | single => trivial
  | many => trivial

theorem reads_decode_iff {j : Json} {t : FindTerm} : Reads decode j t ↔ ofJson? j = some t :=
  Json.reads_inSomeForm_iff

theorem canonical_of_decode (j : Json) (t : FindTerm)
    (hj : j.Every fun j => j.NamesOnce ∧ j.FiniteNumber) (h : Reads decode j t) :
    t.Canonical marksKind := by
  obtain ⟨hd, hf⟩ := Json.every_and_iff.mp hj
  exact canonical_of_ofJson? hd hf (reads_decode_iff.mp h)

end FindTerm

namespace Document

/-! ### Sections -/

/-- The names of the sections of a document. -/
def sectionNames : List String := ["find", "keys", "in", "where", "args"]

theorem mem_sectionNames {name : String} :
    name ∈ sectionNames ↔
      name = "find" ∨ name = "keys" ∨ name = "in" ∨ name = "where" ∨ name = "args" := by
  simp [sectionNames]

/-- Members of different names fill the draft of a document field by field, in whatever order they
stand. -/
theorem ofMembers_iff {members : List (String × Json)} (h : (members.map (·.1)).Nodup)
    {draft : Draft} {d : Document} :
    record.ofMembers draft (.ofJson members) = .ok d ↔
      ∃ final : Draft,
        FilledFrom (Json.each FindTerm.decode) (Json.lookup "find" members) draft.find final.find ∧
        FilledFrom (Json.optional (Json.each Json.text)) (Json.lookup "keys" members)
          draft.keys final.keys ∧
        FilledFrom (Json.optional (Json.each Binding.decode)) (Json.lookup "in" members)
          draft.inputs final.inputs ∧
        FilledFrom (Json.optional (Json.each Clause.decode)) (Json.lookup "where" members)
          draft.clauses final.clauses ∧
        FilledFrom (Json.optional (Json.each Value.decode)) (Json.lookup "args" members)
          draft.args final.args ∧
        record.build final = .ok d := by
  induction members generalizing draft with
  | nil =>
    rw [Json.Record.ofMembers_nil]
    simp only [Json.lookup_nil, Json.filledFrom_none]
    constructor
    · intro hbuild
      exact ⟨draft, rfl, rfl, rfl, rfl, rfl, hbuild⟩
    · intro h
      obtain ⟨⟨find, keys, inputs, clauses, args⟩, rfl, rfl, rfl, rfl, rfl, hbuild⟩ := h
      exact hbuild
  | cons member rest ih =>
    obtain ⟨name, value⟩ := member
    rw [List.map_cons, List.nodup_cons, ← Json.lookup_eq_none_iff] at h
    obtain ⟨hname, hrest⟩ := h
    by_cases hsection : name ∈ sectionNames
    · -- The member fills the section of its name, and no member after it has that name.
      rw [mem_sectionNames] at hsection
      rcases hsection with rfl | rfl | rfl | rfl | rfl
      all_goals
        rw [Json.Record.ofMembers_cons_of_iff (r := record) rfl]
        simp only [Json.lookup_cons, ih hrest, hname, if_true, String.reduceEq, if_false,
          Json.filledFrom_none, Json.filledFrom_some]
        grind
    · -- A member of another name is passed over, and is looked up for no section.
      simp only [mem_sectionNames, not_or] at hsection
      obtain ⟨hfind, hkeys, hin, hwhere, hargs⟩ := hsection
      have hother : record.fields.find? (fun field => field.name = name) = none := by
        simp [record, Json.RecordField.of, Ne.symm hfind, Ne.symm hkeys, Ne.symm hin,
          Ne.symm hwhere, Ne.symm hargs]
      rw [Json.Record.ofMembers_cons_other hother rfl, ih hrest]
      simp only [Json.lookup_cons, hfind, hkeys, hin, hwhere, hargs, if_false]

theorem ofJson_eq_ok_iff {j : Json} {d : Document} : ofJson j = .ok d ↔ Reads decode j d := by
  rw [ofJson, Reads]
  cases decode (.ofJson j) <;> simp [Except.mapError]

/-- A document is read from an object section by section. -/
theorem ofJson_obj_iff {members : List (String × Json)} (h : (members.map (·.1)).Nodup)
    {d : Document} :
    ofJson (.obj members) = .ok d ↔
      (∃ find, Json.lookup "find" members = some find ∧
        Reads (Json.each FindTerm.decode) find d.find) ∧
      MemberRead (Json.each Json.text) (Json.lookup "keys" members) d.keys ∧
      MemberRead (Json.each Binding.decode) (Json.lookup "in" members) d.inputs ∧
      MemberRead (Json.each Clause.decode) (Json.lookup "where" members) d.clauses ∧
      MemberRead (Json.each Value.decode) (Json.lookup "args" members) d.args := by
  rw [ofJson_eq_ok_iff, decode, Json.Record.reads_obj_iff, ofMembers_iff h]
  simp only [← Json.filledFrom_optional_iff]
  constructor
  · intro h
    obtain ⟨⟨find, keys, inputs, clauses, args⟩, hfind, hkeys, hinputs, hclauses, hargs,
      hbuild⟩ := h
    cases find with
    | none => cases hbuild
    | some find =>
      obtain rfl := Except.ok.inj hbuild
      refine ⟨?_, ⟨keys, hkeys, rfl⟩, ⟨inputs, hinputs, rfl⟩, ⟨clauses, hclauses, rfl⟩,
        args, hargs, rfl⟩
      -- The blank draft holds no terms, so there was a member to read them from.
      cases hfound : Json.lookup "find" members with
      | none => simp [hfound, record] at hfind
      | some j =>
        rw [hfound] at hfind
        obtain ⟨-, _, hread, ⟨⟩⟩ := hfind
        exact ⟨j, rfl, hread⟩
  · intro h
    obtain ⟨⟨j, hfound, hread⟩, ⟨keys, hkeys, hkeys'⟩, ⟨inputs, hinputs, hinputs'⟩,
      ⟨clauses, hclauses, hclauses'⟩, args, hargs, hargs'⟩ := h
    have hfind : FilledFrom (Json.each FindTerm.decode) (Json.lookup "find" members)
        record.blank.find (some d.find) := by
      rw [hfound]
      exact ⟨rfl, _, hread, rfl⟩
    have hparts : d = ⟨d.find, keys.join, inputs.join, clauses.join, args.join⟩ := by
      rw [hkeys', hinputs', hclauses', hargs']
    refine ⟨⟨some d.find, keys, inputs, clauses, args⟩, hfind, hkeys, hinputs, hclauses, hargs, ?_⟩
    rw [hparts]
    rfl

/-- Written items are read as a section, item by item, and no section is read where there is
none. -/
theorem memberRead_written_iff {α : Type} {decode : Decoder α} {write : α → Json}
    {items value : Option (List α)} :
    MemberRead (Json.each decode) (items.map fun items => .arr (items.map write)) value ↔
      items.isSome = value.isSome ∧
        List.Forall₂ (fun item a => Reads decode (write item) a) (items.getD [])
          (value.getD []) := by
  cases items with
  | none => cases value <;> simp [MemberRead]
  | some items =>
    rw [Option.map_some, MemberRead, Json.reads_optional_iff]
    cases value <;> simp [Json.reads_each_iff]

/-- Written items are read back as a section if each of them is read back. -/
theorem memberRead_map_iff {α : Type} {decode : Decoder α} {write : α → Json}
    {items : Option (List α)} :
    MemberRead (Json.each decode) (items.map fun items => .arr (items.map write)) items ↔
      ∀ item ∈ items.getD [], Reads decode (write item) item := by
  rw [memberRead_written_iff, List.forall₂_same, eq_self_iff_true, true_and]

/-! ### The value of a document -/

/-- The members of the value of a document. -/
def members (d : Document) : List (String × Json) :=
  ("find", .arr (d.find.map fun term => term.toJson.collapse)) ::
    (memberIf "keys" .str d.keys ++ memberIf "in" Binding.toJson d.inputs ++
      memberIf "where" Clause.toJson d.clauses ++ memberIf "args" Value.toJson d.args)

theorem nodup_members (d : Document) : (d.members.map (·.1)).Nodup := by
  obtain ⟨find, keys, inputs, clauses, args⟩ := d
  cases keys <;> cases inputs <;> cases clauses <;> cases args <;> simp [members, memberIf]

theorem memberIf_collapse {α : Type} (name : String) {write : α → Json}
    (h : ∀ a, (write a).Distinct) (items : Option (List α)) :
    (memberIf name write items).map (fun member => (member.1, member.2.collapse)) =
      memberIf name write items := by
  cases items with
  | none => rfl
  | some items =>
    have hitems : (Json.arr (items.map write)).Distinct := by
      rw [Json.distinct_arr]
      intro j hj
      obtain ⟨a, -, rfl⟩ := List.mem_map.mp hj
      exact h a
    rw [memberIf, List.map_cons, List.map_nil, Json.collapse_eq_self hitems]

/-- The value of a document has each of its members once. -/
theorem toJson_eq (d : Document) : d.toJson = .obj d.members := by
  rw [toJson, wire, Json.collapse, Json.collapseMembers_eq_map]
  -- Only pulls can repeat names, so collapsing changes nothing outside the terms.
  have hstr : ∀ text : String, (Json.str text).Distinct := fun _ => trivial
  have hmembers : (("find", Json.arr (d.find.map FindTerm.toJson)) ::
      (memberIf "keys" .str d.keys ++ memberIf "in" Binding.toJson d.inputs ++
        memberIf "where" Clause.toJson d.clauses ++ memberIf "args" Value.toJson d.args)).map
      (fun member => (member.1, member.2.collapse)) = d.members := by
    rw [members, List.map_cons, List.map_append, List.map_append, List.map_append,
      memberIf_collapse "keys" hstr, memberIf_collapse "in" Binding.distinct_toJson,
      memberIf_collapse "where" Clause.distinct_toJson,
      memberIf_collapse "args" Value.distinct_toJson]
    simp [Json.collapse, Function.comp_def]
  rw [hmembers, Json.latest_eq_self d.nodup_members]

/-- Where names differ nothing is lost when they are collapsed. -/
theorem toJson_eq_wire {d : Document}
    (hd : ∀ p, .pull p ∈ d.find → ∀ s ∈ p.pattern, s.Every AttrSpec.EntriesDiffer) :
    d.toJson = d.wire := by
  have hfind : d.find.map (fun t => t.toJson.collapse) = d.find.map FindTerm.toJson := by
    refine List.map_congr_left ?_
    intro t ht
    cases t with
    | var text => rfl
    | pull p => exact Json.collapse_eq_self (Pull.distinct_toJson (hd p ht))
    | single => rfl
    | many => rfl
  rw [toJson_eq, members, hfind, wire]

/-- What stands under the names of the sections. -/
theorem lookup_memberIf {α : Type} (name other : String) (write : α → Json)
    (items : Option (List α)) :
    Json.lookup name (memberIf other write items) =
      if other = name then items.map fun items => .arr (items.map write) else none := by
  cases items with
  | none => simp [memberIf]
  | some items => simp [memberIf, Json.lookup_cons]

/-! ### Reading back -/

/-- The value of a document is read section by section. -/
theorem ofJson_toJson_eq_ok_iff {d read : Document} :
    ofJson d.toJson = .ok read ↔
      Reads (Json.each FindTerm.decode) (.arr (d.find.map fun term => term.toJson.collapse))
        read.find ∧
      MemberRead (Json.each Json.text) (d.keys.map fun keys => .arr (keys.map .str)) read.keys ∧
      MemberRead (Json.each Binding.decode)
        (d.inputs.map fun inputs => .arr (inputs.map Binding.toJson)) read.inputs ∧
      MemberRead (Json.each Clause.decode)
        (d.clauses.map fun clauses => .arr (clauses.map Clause.toJson)) read.clauses ∧
      MemberRead (Json.each Value.decode)
        (d.args.map fun args => .arr (args.map Value.toJson)) read.args := by
  rw [toJson_eq, ofJson_obj_iff d.nodup_members]
  -- Each section is found among the members if it was written.
  simp only [members, Json.lookup_cons, Json.lookup_append, lookup_memberIf, String.reduceEq,
    if_true, if_false, Option.none_or, Option.or_none, Option.some.injEq, exists_eq_left']

/-- What each section holds is canonical. -/
structure Canonical (heads : Value → Bool) (d : Document) : Prop where
  find : ∀ term ∈ d.find, term.Canonical heads
  inputs : ∀ b ∈ d.inputs.getD [], b.Canonical
  clauses : ∀ c ∈ d.clauses.getD [], c.Canonical heads
  args : ∀ v ∈ d.args.getD [], v.Canonical heads

theorem reads_toJson_iff (d : Document) : Reads decode d.toJson d ↔ d.Canonical marksKind := by
  have hfind : Reads (Json.each FindTerm.decode)
      (.arr (d.find.map fun term => term.toJson.collapse)) d.find ↔
        ∀ term ∈ d.find, term.Canonical marksKind := by
    rw [Json.reads_each_map_iff]
    simp only [FindTerm.reads_decode_iff, FindTerm.ofJson?_toJson_iff]
  have hkeys : MemberRead (Json.each Json.text)
      (d.keys.map fun keys => .arr (keys.map .str)) d.keys := by
    rw [memberRead_map_iff]
    simp
  rw [← ofJson_eq_ok_iff, ofJson_toJson_eq_ok_iff, hfind, and_iff_right hkeys]
  simp only [memberRead_map_iff, Binding.reads_toJson_iff, Clause.reads_decode_iff,
    Clause.ofJson?_toJson_iff, Value.reads_decode_iff, Value.ofJson?_toJson_iff]
  constructor
  · intro h
    obtain ⟨hfind, hinputs, hclauses, hargs⟩ := h
    exact ⟨hfind, hinputs, hclauses, hargs⟩
  · intro h
    exact ⟨h.find, h.inputs, h.clauses, h.args⟩

/-- A document is read back from its value exactly if it is canonical, where the numbers of kinds
mark typed texts as their names do. -/
theorem ofJson_toJson_iff (d : Document) : ofJson d.toJson = .ok d ↔ d.Canonical marksKind := by
  rw [ofJson_eq_ok_iff, reads_toJson_iff]

/-- A document with a list of a number and a text, as it refers to an entity by an attribute. -/
def numberedPair : Document where
  find := [.var "?e"]
  clauses := some [.pattern [.text "?e", .text "a/b", .list [.int 0, .text "x"]]]

/-- The list passes for a typed text, though it begins with the name of no kind. -/
theorem numberedPair_not_read_back :
    numberedPair.Canonical namesKind ∧ ofJson numberedPair.toJson ≠ .ok numberedPair := by
  constructor
  · constructor <;>
      simp [numberedPair, FindTerm.Canonical, FindTerm.singleMark, FindTerm.manyMark,
        Clause.Canonical, Value.isPair, Value.namesKind]
  · rw [Ne, ofJson_eq_ok_iff, reads_toJson_iff]
    intro h
    -- The number is that of the first kind, so the list is not canonical.
    have hpattern := h.clauses _ List.mem_cons_self
    have hlist := hpattern.1 (.list [.int 0, .text "x"]) (by simp)
    have hhead : marksKind (.int 0) = true := by decide
    rw [Value.canonical_list, Value.isPair, hhead] at hlist
    exact Bool.noConfusion hlist.1

end Document

end DatalogClient
