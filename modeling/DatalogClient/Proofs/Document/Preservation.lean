import DatalogClient.Proofs.Document.Grammar

/-!
# Documents that are kept as written

What a client writes is what is sent on, apart from the order of sections, if it is written by the
grammar of the wire; and anything else that is read at all is sent on in another form.

## Main definitions

* `Grammar.IsSection`, `Grammar.IsDocument` — the spellings of documents
* `Json.SameMembers` — objects that differ in the order of members only

## Main results

* `Document.ofJson_perm` — the order of sections does not matter to the reader
* `Document.exists_sameMembers_iff` — documents are kept as written exactly if the grammar admits
  them
-/

namespace DatalogClient

/-- Both are objects, and they hold the same members in some order. -/
def Json.SameMembers (j k : Json) : Prop :=
  ∃ members others, j = .obj members ∧ k = .obj others ∧ members.Perm others

namespace Grammar

/-- The spellings of sections by their names. -/
inductive IsSection (heads : Json → Prop) : String → Json → Prop
  | find (items : List Json) (hitems : ∀ item ∈ items, IsTerm heads item) :
      IsSection heads "find" (.arr items)
  | keys (items : List Json) (hitems : ∀ item ∈ items, ∃ text, item = .str text) :
      IsSection heads "keys" (.arr items)
  | inputs (items : List Json) (hitems : ∀ item ∈ items, IsBinding item) :
      IsSection heads "in" (.arr items)
  | clauses (items : List Json) (hitems : ∀ item ∈ items, IsClause heads item) :
      IsSection heads "where" (.arr items)
  | args (items : List Json) (hitems : ∀ item ∈ items, IsLiteral heads item) :
      IsSection heads "args" (.arr items)

/-- The spellings of documents: what is to be found, and other sections in any order. -/
inductive IsDocument (heads : Json → Prop) : Json → Prop
  | intro (members : List (String × Json)) (hnames : (members.map (·.1)).Nodup)
      (hfind : "find" ∈ members.map (·.1))
      (hsections : ∀ member ∈ members, IsSection heads member.1 member.2) :
      IsDocument heads (.obj members)

variable {heads : Json → Prop}

/-- Sections may stand in any order. -/
theorem IsDocument.perm {members others : List (String × Json)}
    (h : IsDocument heads (.obj members)) (hperm : members.Perm others) :
    IsDocument heads (.obj others) := by
  cases h with
  | intro _ hnames hfind hsections =>
    refine .intro _ ((hperm.map _).nodup_iff.mp hnames) ((hperm.map _).mem_iff.mp hfind) ?_
    exact fun member hmember => hsections member (hperm.mem_iff.mpr hmember)

/-- A section is a list whose items are spelled as its name says. -/
theorem IsSection.exists_items {name : String} {j : Json} (h : IsSection heads name j) :
    name ∈ Document.sectionNames ∧
      ∃ items, j = .arr items ∧
        (name = "find" → ∀ item ∈ items, IsTerm heads item) ∧
        (name = "keys" → ∀ item ∈ items, ∃ text, item = .str text) ∧
        (name = "in" → ∀ item ∈ items, IsBinding item) ∧
        (name = "where" → ∀ item ∈ items, IsClause heads item) ∧
        (name = "args" → ∀ item ∈ items, IsLiteral heads item) := by
  cases h with
  | find items hitems =>
    exact ⟨by simp [Document.sectionNames], items, rfl, by simpa using hitems⟩
  | keys items hitems =>
    exact ⟨by simp [Document.sectionNames], items, rfl, by simpa using hitems⟩
  | inputs items hitems =>
    exact ⟨by simp [Document.sectionNames], items, rfl, by simpa using hitems⟩
  | clauses items hitems =>
    exact ⟨by simp [Document.sectionNames], items, rfl, by simpa using hitems⟩
  | args items hitems =>
    exact ⟨by simp [Document.sectionNames], items, rfl, by simpa using hitems⟩

end Grammar

namespace Document

open Grammar

/-! ### The order of sections -/

/-- Documents are read alike from members in any order. -/
theorem ofJson_perm {members others : List (String × Json)} (hnames : (members.map (·.1)).Nodup)
    (hperm : members.Perm others) {d : Document} :
    ofJson (.obj members) = .ok d ↔ ofJson (.obj others) = .ok d := by
  have hothers : (others.map (·.1)).Nodup := (hperm.map _).nodup_iff.mp hnames
  rw [ofJson_obj_iff hnames, ofJson_obj_iff hothers]
  simp only [Json.lookup_perm hnames hperm]

/-! ### What is written is in the grammar -/

/-- A section that is written, if it is there, has the items that its name asks for. -/
theorem isSection_memberIf {α : Type} {p : Json → Prop} {name : String} (write : α → Json)
    (items : Option (List α))
    (hsection : ∀ items : List Json, (∀ item ∈ items, p item) →
      IsSection MarksKind name (.arr items))
    (hitems : ∀ a ∈ items.getD [], p (write a)) :
    ∀ member ∈ memberIf name write items, IsSection MarksKind member.1 member.2 := by
  cases items with
  | none => simp [memberIf]
  | some items =>
    intro member hmember
    obtain rfl := List.mem_singleton.mp hmember
    refine hsection _ ?_
    intro item hitem
    obtain ⟨a, ha, rfl⟩ := List.mem_map.mp hitem
    exact hitems a ha

/-- Canonical documents are written by the grammar. -/
theorem isDocument_toJson {d : Document} (h : d.Canonical Value.marksKind) :
    IsDocument MarksKind d.toJson := by
  rw [toJson_eq]
  refine .intro _ d.nodup_members (by simp [members]) ?_
  have hfind : IsSection MarksKind "find" (.arr (d.find.map fun term => term.toJson.collapse)) := by
    refine .find _ ?_
    intro item hitem
    obtain ⟨term, hterm, rfl⟩ := List.mem_map.mp hitem
    exact isTerm_iff.mpr ⟨term, h.find term hterm, rfl⟩
  have hkeys := isSection_memberIf .str d.keys IsSection.keys
    fun text _ => ⟨text, rfl⟩
  have hinputs := isSection_memberIf Binding.toJson d.inputs IsSection.inputs
    fun b hb => isBinding_iff.mpr ⟨b, h.inputs b hb, rfl⟩
  have hclauses := isSection_memberIf Clause.toJson d.clauses IsSection.clauses
    fun c hc => isClause_iff.mpr ⟨c, h.clauses c hc, rfl⟩
  have hargs := isSection_memberIf Value.toJson d.args IsSection.args
    fun v hv => isLiteral_iff.mpr ⟨v, h.args v hv, rfl⟩
  intro member hmember
  simp only [members, List.mem_cons, List.mem_append] at hmember
  rcases hmember with rfl | ((hmember | hmember) | hmember) | hmember
  · exact hfind
  · exact hkeys member hmember
  · exact hinputs member hmember
  · exact hclauses member hmember
  · exact hargs member hmember

/-! ### What is in the grammar is written -/

/-- The items of a section that may be absent are written together. -/
theorem exists_section {α : Type} {p : Json → Prop} {q : α → Prop} {write : α → Json}
    (hp : ∀ j, p j → ∃ a, q a ∧ write a = j) {found : Option Json}
    (hfound : ∀ j, found = some j → ∃ items, j = .arr items ∧ ∀ item ∈ items, p item) :
    ∃ value : Option (List α), (∀ a ∈ value.getD [], q a) ∧
      (value.map fun items => .arr (items.map write)) = found := by
  cases found with
  | none => exact ⟨none, by simp, rfl⟩
  | some j =>
    obtain ⟨items, rfl, hitems⟩ := hfound j rfl
    obtain ⟨values, hvalues, rfl⟩ := exists_map_eq fun item hitem => hp item (hitems item hitem)
    exact ⟨some values, hvalues, rfl⟩

/-- The terms of a document are written together. -/
theorem exists_find {members : List (String × Json)} (hfind : "find" ∈ members.map (·.1))
    (hlookup : ∀ name j, Json.lookup name members = some j → IsSection MarksKind name j) :
    ∃ find : List FindTerm, (∀ term ∈ find, term.Canonical Value.marksKind) ∧
      Json.lookup "find" members = some (.arr (find.map fun term => term.toJson.collapse)) := by
  have hsome : Json.lookup "find" members ≠ none := by
    rw [Ne, Json.lookup_eq_none_iff, not_not]
    exact hfind
  obtain ⟨j, hj⟩ := Option.ne_none_iff_exists'.mp hsome
  obtain ⟨-, items, rfl, hitems, -⟩ := (hlookup "find" j hj).exists_items
  obtain ⟨find, hcanonical, rfl⟩ := exists_map_eq fun item hitem =>
    isTerm_iff.mp (hitems rfl item hitem)
  exact ⟨find, hcanonical, hj⟩

/-- Nothing but the sections stands in the value of a document. -/
theorem lookup_members_of_notMem (d : Document) {name : String} (h : name ∉ sectionNames) :
    Json.lookup name d.members = none := by
  simp only [mem_sectionNames, not_or] at h
  obtain ⟨hfind, hkeys, hin, hwhere, hargs⟩ := h
  simp [Document.members, Json.lookup_cons, Json.lookup_append, lookup_memberIf,
    Ne.symm hfind, Ne.symm hkeys, Ne.symm hin, Ne.symm hwhere, Ne.symm hargs]

/-- What stands in the value of a document, section by section. -/
theorem forall_lookup_members (d : Document) {found : String → Option Json}
    (hfind : found "find" = some (.arr (d.find.map fun term => term.toJson.collapse)))
    (hkeys : (d.keys.map fun items => .arr (items.map .str)) = found "keys")
    (hinputs : (d.inputs.map fun items => .arr (items.map Binding.toJson)) = found "in")
    (hclauses : (d.clauses.map fun items => .arr (items.map Clause.toJson)) = found "where")
    (hargs : (d.args.map fun items => .arr (items.map Value.toJson)) = found "args") :
    ∀ name ∈ sectionNames, found name = Json.lookup name d.members := by
  intro name hname
  rw [mem_sectionNames] at hname
  rcases hname with rfl | rfl | rfl | rfl | rfl
  · simp [Document.members, Json.lookup_cons, hfind]
  · simp [Document.members, Json.lookup_cons, Json.lookup_append, lookup_memberIf, ← hkeys]
  · simp [Document.members, Json.lookup_cons, Json.lookup_append, lookup_memberIf, ← hinputs]
  · simp [Document.members, Json.lookup_cons, Json.lookup_append, lookup_memberIf, ← hclauses]
  · simp [Document.members, Json.lookup_cons, Json.lookup_append, lookup_memberIf, ← hargs]

/-- The sections that the grammar admits are those of a canonical document. -/
theorem exists_sections {members : List (String × Json)} (hfind : "find" ∈ members.map (·.1))
    (hlookup : ∀ name j, Json.lookup name members = some j → IsSection MarksKind name j) :
    ∃ d : Document, d.Canonical Value.marksKind ∧
      ∀ name ∈ sectionNames, Json.lookup name members = Json.lookup name d.members := by
  obtain ⟨find, hfindCanonical, hfindItems⟩ := exists_find hfind hlookup
  have htext : ∀ j : Json, (∃ text, j = .str text) → ∃ text, True ∧ Json.str text = j := by
    intro j h
    obtain ⟨text, rfl⟩ := h
    exact ⟨text, trivial, rfl⟩
  obtain ⟨keys, -, hkeys⟩ := exists_section htext fun j hj => by
      obtain ⟨-, items, rfl, -, hitems, -⟩ := (hlookup "keys" j hj).exists_items
      exact ⟨items, rfl, hitems rfl⟩
  obtain ⟨inputs, hinputsCanonical, hinputs⟩ := exists_section (fun j => isBinding_iff.mp)
    fun j hj => by
      obtain ⟨-, items, rfl, -, -, hitems, -⟩ := (hlookup "in" j hj).exists_items
      exact ⟨items, rfl, hitems rfl⟩
  obtain ⟨clauses, hclausesCanonical, hclauses⟩ := exists_section (fun j => isClause_iff.mp)
    fun j hj => by
      obtain ⟨-, items, rfl, -, -, -, hitems, -⟩ := (hlookup "where" j hj).exists_items
      exact ⟨items, rfl, hitems rfl⟩
  obtain ⟨args, hargsCanonical, hargs⟩ := exists_section (fun j => isLiteral_iff.mp)
    fun j hj => by
      obtain ⟨-, items, rfl, -, -, -, -, hitems⟩ := (hlookup "args" j hj).exists_items
      exact ⟨items, rfl, hitems rfl⟩
  refine ⟨⟨find, keys, inputs, clauses, args⟩,
    ⟨hfindCanonical, hinputsCanonical, hclausesCanonical, hargsCanonical⟩, ?_⟩
  exact forall_lookup_members _ hfindItems hkeys hinputs hclauses hargs

/-- What the grammar admits is, but for the order of sections, what a canonical document is written
as. -/
theorem exists_perm_members {members : List (String × Json)}
    (h : IsDocument MarksKind (.obj members)) :
    ∃ d : Document, d.Canonical Value.marksKind ∧ members.Perm d.members := by
  cases h with
  | intro _ hnames hfind hsections =>
    have hlookup : ∀ name j, Json.lookup name members = some j → IsSection MarksKind name j := by
      intro name j hj
      exact hsections _ ((Json.lookup_eq_some_iff hnames).mp hj)
    obtain ⟨d, hcanonical, hsame⟩ := exists_sections hfind hlookup
    -- Since names do not repeat, it is enough to look under every name on both sides.
    refine ⟨d, hcanonical, Json.perm_of_lookup hnames (nodup_members _) ?_⟩
    intro name
    by_cases hname : name ∈ sectionNames
    · exact hsame name hname
    · rw [lookup_members_of_notMem d hname, Option.eq_none_iff_forall_ne_some]
      intro j hj
      exact hname (hlookup name j hj).exists_items.1

/-! ### What is kept -/

/-- What is kept as written is spelled by the grammar. -/
theorem isDocument_of_sameMembers {j : Json} {d : Document} (hread : ofJson j = .ok d)
    (hsame : d.toJson.SameMembers j) : IsDocument MarksKind j := by
  obtain ⟨members, others, hmembers, rfl, hperm⟩ := hsame
  rw [toJson_eq] at hmembers
  obtain rfl := Json.obj.inj hmembers
  rw [← ofJson_perm d.nodup_members hperm, ← toJson_eq, ofJson_eq_ok_iff, reads_toJson_iff] at hread
  have hdocument := isDocument_toJson hread
  rw [toJson_eq] at hdocument
  exact hdocument.perm hperm

/-- A document is kept as written, apart from the order of its sections, exactly if it is spelled
by the grammar in which the numbers of kinds mark typed texts as their names do. -/
theorem exists_sameMembers_iff (j : Json) :
    (∃ d, ofJson j = .ok d ∧ d.toJson.SameMembers j) ↔ IsDocument MarksKind j := by
  constructor
  · intro h
    obtain ⟨d, hread, hsame⟩ := h
    exact isDocument_of_sameMembers hread hsame
  · intro h
    obtain ⟨members, rfl⟩ : ∃ members, j = .obj members := by
      cases h
      exact ⟨_, rfl⟩
    -- The document that is written so is read back, and from other orders of its sections too.
    obtain ⟨d, hcanonical, hperm⟩ := exists_perm_members h
    have hread : ofJson (.obj members) = .ok d := by
      rw [← ofJson_perm d.nodup_members hperm.symm, ← toJson_eq, ofJson_eq_ok_iff]
      exact (reads_toJson_iff d).mpr hcanonical
    exact ⟨d, hread, d.members, members, d.toJson_eq, rfl, hperm.symm⟩

/-- A document that refers to an entity by the number of an attribute. -/
def numberedReference : Json :=
  .obj [("find", .arr [.str "?e"]),
    ("where", .arr [.arr [.str "?e", .str "a/b", .arr [.num (.int 0), .str "x"]]])]

/-- The reference begins with the name of no kind, and yet it is not kept. -/
theorem numberedReference_not_kept :
    IsDocument NamesKind numberedReference ∧
      ¬ ∃ d, ofJson numberedReference = .ok d ∧ d.toJson.SameMembers numberedReference := by
  constructor
  · have hreference : IsLiteral NamesKind (.arr [.num (.int 0), .str "x"]) := by
      refine .list _ ?_ ?_
      · simp only [List.mem_cons, List.not_mem_nil, or_false, forall_eq_or_imp, forall_eq]
        exact ⟨.int 0 (by decide) (by decide), .text "x"⟩
      · rintro head text ⟨⟩ ⟨kind, hkind⟩
        cases hkind
    have hclause : IsClause NamesKind
        (.arr [.str "?e", .str "a/b", .arr [.num (.int 0), .str "x"]]) := by
      refine .list _ ?_ (by simp)
      simp only [List.mem_cons, List.not_mem_nil, or_false, forall_eq_or_imp, forall_eq]
      exact ⟨.text "?e", .text "a/b", hreference⟩
    refine .intro _ (by simp) (by simp) ?_
    simp only [List.mem_cons, List.not_mem_nil, or_false, forall_eq_or_imp, forall_eq]
    exact ⟨.find _ (by simpa using IsTerm.text "?e"), .clauses _ (by simpa using hclause)⟩
  · rintro ⟨d, hread, hsame⟩
    obtain ⟨_, -, -, hsections⟩ := isDocument_of_sameMembers hread hsame
    obtain ⟨-, _, ⟨⟩, -, -, -, hclauses, -⟩ :=
      (hsections _ (List.mem_cons_of_mem _ List.mem_cons_self)).exists_items
    -- The clause is a list, so its items are literals, the reference among them.
    obtain ⟨-, -, -⟩ | ⟨_, hitems, -⟩ := hclauses rfl _ List.mem_cons_self
    obtain - | - | - | - | - | ⟨_, -, hpair⟩ := hitems (.arr [.num (.int 0), .str "x"]) (by simp)
    exact hpair _ _ rfl (.inr ⟨0, rfl, by decide, by decide⟩)

end Document

end DatalogClient
