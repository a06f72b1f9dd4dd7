import DatalogClient.Document.Validation
import DatalogClient.Proofs.Pull.Readable

/-!
# Documents that are read at all

The value of a document is to be read as some document, though not always as the same one. Whether
it is depends on nothing but the literals, which have to be finite, and the pulls. Bindings are
always read, and so is every clause of finite literals: what is no rule is a list, and a list of
literals is some clause.

## Main definitions

* `Document.Readable` — the literals are finite and the pulls readable

## Main results

* `Clause.exists_ofJson?_toJson_iff` — a clause is read as some clause exactly if its literals are
  finite
* `Document.exists_ofJson_toJson_iff` — a document is read as some document exactly if it is
  readable
-/

namespace DatalogClient

open Json (Reads MemberRead)

/-! ### Bindings -/

/-- Every binding is read, if not as itself. -/
theorem Binding.exists_reads_toJson (b : Binding) : ∃ read, Reads decode b.toJson read := by
  cases b with
  | scalar var => exact ⟨_, reads_decode_iff.mpr (.inl ⟨var, rfl, rfl⟩)⟩
  | tuple vars => exact ⟨_, reads_decode_iff.mpr (.inr (.inl ⟨vars, rfl, rfl⟩))⟩
  | collection var =>
    exact ⟨_, reads_decode_iff.mpr (.inr (.inl ⟨[var, collectionMark], rfl, rfl⟩))⟩
  | relation vars => exact ⟨_, reads_decode_iff.mpr (.inr (.inr ⟨vars, rfl, rfl⟩))⟩

theorem Binding.finite_literal (b : Binding) : b.literal.Finite := by
  have htexts : ∀ vars : List String, (Value.list (vars.map .text)).Finite := by
    intro vars
    rw [Value.finite_list, List.forall_mem_map]
    exact fun _ _ => trivial
  cases b with
  | scalar var => trivial
  | tuple vars => exact htexts vars
  | collection var => exact htexts [var, collectionMark]
  | relation vars =>
    rw [literal, Value.finite_list, List.forall_mem_singleton]
    exact htexts vars

/-! ### Clauses -/

theorem Call.finite_literal_iff (call : Call) :
    call.literal.Finite ↔ ∀ arg ∈ call.args, arg.Finite := by
  rw [literal, Value.finite_list, List.forall_mem_cons]
  exact and_iff_right trivial

theorem Value.exists_listOfJson?_map_toJson_iff {items : List Value} :
    (∃ values, listOfJson? (items.map toJson) = some values) ↔ ∀ v ∈ items, v.Finite := by
  rw [exists_listOfJson?_iff, List.forall_mem_map]
  exact forall₂_congr fun v _ => v.exists_ofJson?_toJson_iff

/-- A rule is read as some rule exactly if its arguments are finite. -/
theorem RuleUsage.exists_reads_toJson_iff (r : RuleUsage) :
    (∃ read, Reads decode r.toJson read) ↔ ∀ arg ∈ r.args, arg.Finite := by
  simp only [toJson_eq, reads_pair_iff, List.map_cons, Value.toJson, Json.arr.injEq,
    true_and, exists_eq_left']
  rw [← Value.exists_listOfJson?_map_toJson_iff]
  constructor
  · rintro ⟨read, hread⟩
    rw [Value.listOfJson?_eq_some_iff, List.forall₂_cons] at hread
    exact ⟨read.args, Value.listOfJson?_eq_some_iff.mpr hread.2⟩
  · rintro ⟨values, hvalues⟩
    rw [Value.listOfJson?_eq_some_iff] at hvalues
    exact ⟨⟨r.name, values⟩, Value.listOfJson?_eq_some_iff.mpr (.cons rfl hvalues)⟩

namespace Clause

/-- Literals that are written one after another are read as some clause exactly if they are
finite. -/
theorem exists_ofJson?_map_toJson_iff {items : List Value} :
    (∃ read, ofJson? (.arr (items.map Value.toJson)) = some read) ↔ ∀ v ∈ items, v.Finite := by
  constructor
  · rintro ⟨read, hread⟩
    by_cases hrule : ∃ r, read = .rule r
    · -- The list begins with the word for rules, and its other item is the list of a rule.
      obtain ⟨r, rfl⟩ := hrule
      obtain ⟨inner, hmap, hinner⟩ := RuleUsage.reads_arr_iff.mp (ofJson?_eq_rule_iff.mp hread)
      obtain ⟨values, rfl, rfl⟩ := exists_call_of_map_toJson hmap
      have hvalues := Value.exists_listOfJson?_map_toJson_iff.mp ⟨_, hinner⟩
      rw [List.forall_mem_cons, List.forall_mem_singleton, Value.finite_list]
      exact ⟨trivial, hvalues⟩
    · obtain ⟨-, _, ⟨⟩, values, hvalues, -⟩ :=
        (ofJson?_eq_some_iff (not_exists.mp hrule)).mp hread
      exact Value.exists_listOfJson?_map_toJson_iff.mp ⟨values, hvalues⟩
  · intro h
    obtain ⟨values, hvalues⟩ := Value.exists_listOfJson?_map_toJson_iff.mpr h
    by_cases hrule : ∃ r, Reads RuleUsage.decode (.arr (items.map Value.toJson)) r
    · obtain ⟨r, hr⟩ := hrule
      exact ⟨_, ofJson?_eq_rule_iff.mpr hr⟩
    · exact ⟨_, (ofJson?_eq_some_iff (ofItems_ne_rule values)).mpr
        ⟨not_exists.mp hrule, _, rfl, values, hvalues, rfl⟩⟩

/-- The wire form of a clause is read as some clause exactly if its literals are finite. -/
theorem exists_ofJson?_toJson_iff (c : Clause) :
    (∃ read, ofJson? c.toJson = some read) ↔ ∀ v ∈ c.operands, v.Finite := by
  cases c with
  | pattern items =>
    rw [toJson_eq_arr (by simp), exists_ofJson?_map_toJson_iff, literals, operands]
  | predicate call =>
    rw [toJson_eq_arr (by simp), exists_ofJson?_map_toJson_iff, literals, operands,
      List.forall_mem_singleton, call.finite_literal_iff]
  | function call binding =>
    rw [toJson_eq_arr (by simp), exists_ofJson?_map_toJson_iff, literals, operands,
      List.forall_mem_cons, List.forall_mem_singleton, and_iff_left binding.finite_literal,
      call.finite_literal_iff]
  | rule usage =>
    rw [toJson, operands, ← usage.exists_reads_toJson_iff]
    constructor
    · rintro ⟨read, hread⟩
      by_cases hrule : ∃ r, read = .rule r
      · obtain ⟨r, rfl⟩ := hrule
        exact ⟨r, ofJson?_eq_rule_iff.mp hread⟩
      · -- A rule is written as an object, and nothing else is read from one.
        obtain ⟨-, _, hlist, -⟩ := (ofJson?_eq_some_iff (not_exists.mp hrule)).mp hread
        cases hlist
    · rintro ⟨r, hr⟩
      exact ⟨_, ofJson?_eq_rule_iff.mpr hr⟩

end Clause

/-! ### Terms -/

namespace FindTerm

/-- A pull is readable. -/
def Readable : FindTerm → Prop
  | var _ => True
  | pull p => p.Readable
  | single => True
  | many => True

theorem exists_ofJson?_toJson_iff (t : FindTerm) :
    (∃ read, ofJson? t.toJson.collapse = some read) ↔ t.Readable := by
  cases t with
  | var text => exact iff_of_true ⟨_, rfl⟩ trivial
  | single => exact iff_of_true ⟨_, rfl⟩ trivial
  | many => exact iff_of_true ⟨_, rfl⟩ trivial
  | pull p =>
    rw [Readable, ← p.exists_reads_toJson_iff, toJson]
    constructor
    · rintro ⟨read, hread⟩
      cases read with
      | pull q => exact ⟨q, ofJson?_eq_pull_iff.mp hread⟩
      | var text | single | many =>
        rw [Pull.collapse_toJson] at hread
        simp [ofJson?] at hread
    · rintro ⟨q, hq⟩
      exact ⟨_, ofJson?_eq_pull_iff.mpr hq⟩

end FindTerm

/-! ### Documents -/

namespace Document

/-- Every pull is readable, and every literal elsewhere is finite. -/
structure Readable (d : Document) : Prop where
  find : ∀ t ∈ d.find, t.Readable
  clauses : ∀ c ∈ d.clauses.getD [], ∀ v ∈ c.operands, v.Finite
  args : ∀ v ∈ d.args.getD [], v.Finite

/-- Written items are read as some section if each of them is read as something. -/
theorem exists_memberRead_iff {α : Type} {decode : Decoder α} {write : α → Json}
    {items : Option (List α)} :
    (∃ value, MemberRead (Json.each decode)
        (items.map fun items => .arr (items.map write)) value) ↔
      ∀ item ∈ items.getD [], ∃ a, Reads decode (write item) a := by
  simp only [memberRead_written_iff]
  rw [← exists_forall₂_iff]
  constructor
  · rintro ⟨value, -, hvalue⟩
    exact ⟨_, hvalue⟩
  · rintro ⟨values, hvalues⟩
    cases items with
    | none => exact ⟨none, rfl, .nil⟩
    | some items => exact ⟨some values, rfl, hvalues⟩

/-- The value of a document is read as some document exactly if the document is readable. -/
theorem exists_ofJson_toJson_iff (d : Document) :
    (∃ read, ofJson d.toJson = .ok read) ↔ d.Readable := by
  have hfind : (∃ find, Reads (Json.each FindTerm.decode)
      (.arr (d.find.map fun term => term.toJson.collapse)) find) ↔ ∀ t ∈ d.find, t.Readable := by
    rw [Json.exists_reads_each_map_iff]
    simp only [FindTerm.reads_decode_iff, FindTerm.exists_ofJson?_toJson_iff]
  have hkeys : ∃ keys, MemberRead (Json.each Json.text)
      (d.keys.map fun keys => .arr (keys.map .str)) keys :=
    exists_memberRead_iff.mpr fun key _ => ⟨key, Json.reads_text_iff.mpr rfl⟩
  have hinputs : ∃ inputs, MemberRead (Json.each Binding.decode)
      (d.inputs.map fun inputs => .arr (inputs.map Binding.toJson)) inputs :=
    exists_memberRead_iff.mpr fun b _ => b.exists_reads_toJson
  have hclauses : (∃ clauses, MemberRead (Json.each Clause.decode)
      (d.clauses.map fun clauses => .arr (clauses.map Clause.toJson)) clauses) ↔
        ∀ c ∈ d.clauses.getD [], ∀ v ∈ c.operands, v.Finite := by
    simp only [exists_memberRead_iff, Clause.reads_decode_iff, Clause.exists_ofJson?_toJson_iff]
  have hargs : (∃ args, MemberRead (Json.each Value.decode)
      (d.args.map fun args => .arr (args.map Value.toJson)) args) ↔
        ∀ v ∈ d.args.getD [], v.Finite := by
    simp only [exists_memberRead_iff, Value.reads_decode_iff, Value.exists_ofJson?_toJson_iff]
  constructor
  · rintro ⟨read, hread⟩
    obtain ⟨hterms, -, -, hclause, harg⟩ := ofJson_toJson_eq_ok_iff.mp hread
    exact ⟨hfind.mp ⟨_, hterms⟩, hclauses.mp ⟨_, hclause⟩, hargs.mp ⟨_, harg⟩⟩
  · intro h
    obtain ⟨find, hfind⟩ := hfind.mpr h.find
    obtain ⟨keys, hkeys⟩ := hkeys
    obtain ⟨inputs, hinputs⟩ := hinputs
    obtain ⟨clauses, hclauses⟩ := hclauses.mpr h.clauses
    obtain ⟨args, hargs⟩ := hargs.mpr h.args
    exact ⟨⟨find, keys, inputs, clauses, args⟩,
      ofJson_toJson_eq_ok_iff.mpr ⟨hfind, hkeys, hinputs, hclauses, hargs⟩⟩

/-- Entries of the names of a selector are taken for one, though no pattern stands behind the
second. -/
example : (ofJson ({ find := [.pull ⟨[.map (.attrs [("key", .pattern [.name "a/b"]),
    ("selector", .recursion .unbounded)])], "?e"⟩] } : Document).toJson).toOption = none := rfl

/-- A document that asks for as many values of an attribute as no signed word holds. -/
def greatLimit : Document where
  find := [.pull ⟨[.limit "a/b" 9223372036854775808], "?e"⟩, .single]

/-- The document is valid, and all its literals are finite for there are none, but its value is not
read. -/
theorem greatLimit_not_read :
    greatLimit.validate = .ok () ∧ greatLimit.EveryLiteral Value.Finite ∧
      ¬ ∃ read, ofJson greatLimit.toJson = .ok read := by
  have hfinite : greatLimit.EveryLiteral Value.Finite := by
    refine ⟨?_, by simp [greatLimit], by simp [greatLimit]⟩
    rw [greatLimit, List.forall_mem_cons, List.forall_mem_singleton]
    refine ⟨?_, trivial⟩
    rw [FindTerm.EveryLiteral, List.forall_mem_singleton]
    trivial
  have hnone : (ofJson greatLimit.toJson).toOption = none := rfl
  refine ⟨rfl, hfinite, ?_⟩
  rintro ⟨read, hread⟩
  rw [hread] at hnone
  cases hnone

end Document

end DatalogClient
