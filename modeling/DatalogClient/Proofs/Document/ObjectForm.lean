import DatalogClient.Proofs.Document.Integers

/-!
# Records written as lists

A document, a pull and a rule are written as objects. Each of them is also read from the list of
what its members would hold, in the order of the fields. So what is read as a document need not
have the form of an object; the object that it stands for has, and is read as the same document.

## Main definitions

* `Document.InObjectForm` — documents, pulls and rules have the form of objects
* `Document.Unlisted` — none of them is a list
* `Document.spelledOut` — the value with objects in place of these lists

## Main results

* `Document.unlisted_spelledOut` — no list is left
* `Document.ofJson_spelledOut` — what is read is the same
* `Document.inObjectForm_iff` — what is read has the form of objects exactly if no such list is
  in it
-/

namespace DatalogClient

open Json (Reads HasMembers IsList itemsOf)

/-! ### Items of lists -/

namespace Json

/-- The list of the changed items, if the value is a list. -/
def mapItems (f : Json → Json) : Json → Json
  | .arr items => .arr (items.map f)
  | j => j

theorem itemsOf_mapItems (f : Json → Json) (found : Option Json) :
    itemsOf (found.map (mapItems f)) = (itemsOf found).map f := by
  cases found with
  | none => rfl
  | some j => cases j <;> rfl

theorem mapItems_eq_self {f : Json → Json} {j : Json}
    (h : ∀ item ∈ itemsOf (some j), f item = item) : mapItems f j = j := by
  cases j with
  | arr items =>
    rw [itemsOf_arr] at h
    have hitems : items.map f = items.map id := List.map_congr_left h
    rw [mapItems, hitems, List.map_id]
  | null | bool _ | num _ | str _ | obj _ => rfl

theorem distinct_mapItems {f : Json → Json} (hf : ∀ item : Json, item.Distinct → (f item).Distinct)
    {j : Json} (hj : j.Distinct) : (mapItems f j).Distinct := by
  cases j with
  | arr items =>
    rw [distinct_arr] at hj
    rw [mapItems, distinct_arr, List.forall_mem_map]
    exact fun item hitem => hf item (hj item hitem)
  | null | bool _ | num _ | str _ | obj _ => exact hj

theorem lookup_mapByName (name : String) (f : String → Json → Json)
    (members : List (String × Json)) :
    lookup name (members.map fun member => (member.1, f member.1 member.2)) =
      (lookup name members).map (f name) := by
  induction members with
  | nil => rfl
  | cons member rest ih =>
    rw [List.map_cons, lookup_cons, lookup_cons, ih]
    split_ifs with hname
    · rw [Option.map_some, hname]
    · rfl

theorem not_isList_obj (members : List (String × Json)) : ¬ (Json.obj members).IsList := by
  rintro ⟨items, hitems⟩
  cases hitems

theorem reads_each_mapItems {α : Type} {decode : Decoder α} {f : Json → Json}
    (hf : ∀ item a, Reads decode item a → Reads decode (f item) a) {j : Json} {values : List α}
    (h : Reads (each decode) j values) : Reads (each decode) (mapItems f j) values := by
  obtain ⟨items, rfl, hitems⟩ := reads_each_iff.mp h
  refine reads_each_iff.mpr ⟨items.map f, rfl, List.forall₂_map_left_iff.mpr ?_⟩
  exact hitems.imp hf

end Json

theorem Json.MemberRead.mapItems {α : Type} {decode : Decoder α} {f : Json → Json}
    (hf : ∀ item a, Reads decode item a → Reads decode (f item) a) {found : Option Json}
    {value : Option (List α)} (h : MemberRead (Json.each decode) found value) :
    MemberRead (Json.each decode) (found.map (Json.mapItems f)) value := by
  cases found with
  | none => exact h
  | some j =>
    rcases Json.reads_optional_iff.mp h with ⟨rfl, hnone⟩ | ⟨hnull, values, rfl, hread⟩
    · exact Json.reads_optional_iff.mpr (.inl ⟨rfl, hnone⟩)
    · have hmapped := Json.reads_each_mapItems hf hread
      refine Json.reads_optional_iff.mpr (.inr ⟨?_, values, rfl, hmapped⟩)
      obtain ⟨items, rfl, -⟩ := Json.reads_each_iff.mp hread
      exact Json.noConfusion

/-! ### Terms -/

namespace FindTerm

/-- The term with an object in place of a list. -/
def spelledOut : Json → Json
  | .arr items => .obj (Pull.record.members (.arr items))
  | j => j

theorem not_isList_spelledOut (j : Json) : ¬ (spelledOut j).IsList := by
  rintro ⟨items, hitems⟩
  cases j <;> cases hitems

theorem spelledOut_eq_self {j : Json} (h : ¬ j.IsList) : spelledOut j = j := by
  cases j with
  | arr items => exact absurd ⟨items, rfl⟩ h
  | null | bool _ | num _ | str _ | obj _ => rfl

theorem distinct_spelledOut (j : Json) (hj : j.Distinct) : (spelledOut j).Distinct := by
  cases j with
  | arr items => exact Pull.apart_record.distinct_members hj
  | null | bool _ | num _ | str _ | obj _ => exact hj

theorem reads_spelledOut (j : Json) (t : FindTerm) (h : Reads decode j t) :
    Reads decode (spelledOut j) t := by
  cases j with
  | arr items =>
    rw [reads_decode_iff] at h ⊢
    cases t with
    | pull p =>
      rw [ofJson?_eq_pull_iff] at h ⊢
      exact Pull.apart_record.reads_members h
    | var text | single | many => simp [ofJson?] at h
  | null | bool _ | num _ | str _ | obj _ => exact h

end FindTerm

/-! ### Clauses -/

namespace Clause

/-- A rule with an object in place of a list. -/
def spelledOut (j : Json) : Json :=
  match RuleUsage.decode (.ofJson j) with
  | .ok _ => .obj (RuleUsage.record.members j)
  | .error _ => j

theorem spelledOut_of_reads {j : Json} {r : RuleUsage} (h : Reads RuleUsage.decode j r) :
    spelledOut j = .obj (RuleUsage.record.members j) := by
  have hread : RuleUsage.decode (.ofJson j) = .ok r := h
  rw [spelledOut, hread]

theorem spelledOut_of_not {j : Json} (h : ∀ r, ¬ Reads RuleUsage.decode j r) :
    spelledOut j = j := by
  rw [spelledOut]
  split
  · rename_i r hread
    exact absurd hread (h r)
  · rfl

/-- The value is read as a rule. -/
def IsRule (j : Json) : Prop := ∃ r, ofJson? j = some (.rule r)

theorem isRule_iff {j : Json} : IsRule j ↔ ∃ r, Reads RuleUsage.decode j r :=
  exists_congr fun _ => ofJson?_eq_rule_iff

theorem not_isList_spelledOut {j : Json} (h : IsRule (spelledOut j)) :
    ¬ (spelledOut j).IsList := by
  by_cases hrule : IsRule j
  · obtain ⟨r, hread⟩ := isRule_iff.mp hrule
    rw [spelledOut_of_reads hread]
    exact Json.not_isList_obj _
  · -- What is no rule stays as it is, and so is none afterwards.
    rw [isRule_iff, not_exists] at hrule
    rw [spelledOut_of_not hrule, isRule_iff] at h
    exact absurd h (not_exists.mpr hrule)

theorem spelledOut_eq_self {j : Json} (h : IsRule j → ¬ j.IsList) : spelledOut j = j := by
  by_cases hrule : IsRule j
  · obtain ⟨r, hread⟩ := isRule_iff.mp hrule
    obtain ⟨members, rfl⟩ := (Json.Record.isList_or_exists_of_reads
      (RuleUsage.reads_decode_iff.mp hread)).resolve_left (h hrule)
    exact spelledOut_of_reads hread
  · rw [isRule_iff, not_exists] at hrule
    exact spelledOut_of_not hrule

theorem distinct_spelledOut (j : Json) (hj : j.Distinct) : (spelledOut j).Distinct := by
  rw [spelledOut]
  split
  · exact RuleUsage.apart_record.distinct_members hj
  · exact hj

theorem reads_spelledOut (j : Json) (c : Clause) (h : Reads decode j c) :
    Reads decode (spelledOut j) c := by
  by_cases hrule : ∃ r, Reads RuleUsage.decode j r
  · -- What can be read as a rule is read as nothing else.
    obtain ⟨r, hread⟩ := hrule
    rw [reads_decode_iff] at h ⊢
    obtain rfl := Option.some.inj ((ofJson?_eq_rule_iff.mpr hread).symm.trans h)
    rw [spelledOut_of_reads hread, ofJson?_eq_rule_iff, RuleUsage.reads_decode_iff]
    exact RuleUsage.apart_record.reads_members (RuleUsage.reads_decode_iff.mp hread)
  · rw [spelledOut_of_not (not_exists.mp hrule)]
    exact h

end Clause

/-! ### What records need -/

theorem Pull.needs : ∀ name ∈ ["pull", "entity"], record.Needs name := by
  refine Json.Record.needs_pair rfl ?_
  rintro ⟨_ | pattern, _ | entity⟩ p hbuild
  · cases hbuild
  · cases hbuild
  · cases hbuild
  · exact ⟨rfl, rfl⟩

theorem RuleUsage.needs : ∀ name ∈ ["type", "value"], record.Needs name := by
  refine Json.Record.needs_pair rfl ?_
  rintro ⟨_ | tag, _ | items⟩ parts hbuild
  · cases hbuild
  · cases hbuild
  · cases hbuild
  · exact ⟨rfl, rfl⟩

/-- A term is a string, or a pull, which is an object of pattern and entity unless it is a list. -/
theorem FindTerm.objectForm_iff {j : Json} {t : FindTerm} (h : Reads decode j t) :
    (∃ text, j = .str text) ∨ HasMembers ["pull", "entity"] j ↔ ¬ j.IsList := by
  rw [reads_decode_iff] at h
  cases t with
  | pull p =>
    rw [ofJson?_eq_pull_iff] at h
    rw [← Pull.apart_record.hasMembers_iff Pull.needs h, or_iff_right_iff_imp]
    rintro ⟨text, rfl⟩
    rcases Json.Record.isList_or_exists_of_reads h with ⟨items, hitems⟩ | ⟨members, hmembers⟩
    · cases hitems
    · cases hmembers
  | var text | single | many =>
    cases j with
    | str s => exact iff_of_true (.inl ⟨s, rfl⟩) fun ⟨items, hitems⟩ => nomatch hitems
    | null | bool _ | num _ | arr _ | obj _ => simp [ofJson?] at h

/-- A rule is an object of type and items unless it is a list. -/
theorem Clause.objectForm_iff {j : Json} (h : IsRule j) :
    HasMembers ["type", "value"] j ↔ ¬ j.IsList := by
  obtain ⟨r, hread⟩ := isRule_iff.mp h
  exact RuleUsage.apart_record.hasMembers_iff RuleUsage.needs (RuleUsage.reads_decode_iff.mp hread)

namespace Document

theorem needs : ∀ name ∈ ["find"], record.Needs name := by
  simp only [List.forall_mem_cons, List.not_mem_nil, false_imp_iff, implies_true, and_true]
  refine ⟨_, List.mem_cons_self, rfl, ?_⟩
  rintro ⟨_ | find, keys, inputs, clauses, args⟩ d hbuild
  · cases hbuild
  · rfl

/-! ### Documents -/

/-- The items of the section of the name. -/
def sectionOf (name : String) (j : Json) : List Json :=
  itemsOf (Json.lookup name (record.members j))

/-- The value is an object with terms, each pull in them is an object with a pattern and an entity,
and each rule is an object with its type and its items. -/
structure InObjectForm (j : Json) : Prop where
  document : HasMembers ["find"] j
  find : ∀ item ∈ sectionOf "find" j,
    (∃ text, item = .str text) ∨ HasMembers ["pull", "entity"] item
  clauses : ∀ item ∈ sectionOf "where" j, Clause.IsRule item → HasMembers ["type", "value"] item

/-- Neither the value is a list, nor a term in it, nor a rule. -/
structure Unlisted (j : Json) : Prop where
  document : ¬ j.IsList
  find : ∀ item ∈ sectionOf "find" j, ¬ item.IsList
  clauses : ∀ item ∈ sectionOf "where" j, Clause.IsRule item → ¬ item.IsList

/-- The member with objects in place of lists. -/
def spelledMember (name : String) (value : Json) : Json :=
  if name = "find" then value.mapItems FindTerm.spelledOut
  else if name = "where" then value.mapItems Clause.spelledOut
  else value

/-- The value with objects in place of the lists that are read as records. -/
def spelledOut (j : Json) : Json :=
  .obj ((record.members j).map fun member => (member.1, spelledMember member.1 member.2))

theorem lookup_spelledOut (name : String) (j : Json) :
    Json.lookup name (record.members (spelledOut j)) =
      (Json.lookup name (record.members j)).map (spelledMember name) :=
  Json.lookup_mapByName name spelledMember _

theorem sectionOf_find_spelledOut (j : Json) :
    sectionOf "find" (spelledOut j) = (sectionOf "find" j).map FindTerm.spelledOut := by
  rw [sectionOf, lookup_spelledOut, sectionOf, ← Json.itemsOf_mapItems]
  rfl

theorem sectionOf_where_spelledOut (j : Json) :
    sectionOf "where" (spelledOut j) = (sectionOf "where" j).map Clause.spelledOut := by
  rw [sectionOf, lookup_spelledOut, sectionOf, ← Json.itemsOf_mapItems]
  rfl

/-- No record is a list in what is spelled out. -/
theorem unlisted_spelledOut (j : Json) : Unlisted (spelledOut j) where
  document := Json.not_isList_obj _
  find := by
    rw [sectionOf_find_spelledOut, List.forall_mem_map]
    exact fun item _ => FindTerm.not_isList_spelledOut item
  clauses := by
    rw [sectionOf_where_spelledOut, List.forall_mem_map]
    exact fun item _ => Clause.not_isList_spelledOut

theorem distinct_spelledOut {j : Json} (hj : j.Distinct) : (spelledOut j).Distinct := by
  have hmember : ∀ (name : String) (value : Json), value.Distinct →
      (spelledMember name value).Distinct := by
    intro name value hvalue
    rw [spelledMember]
    split_ifs
    · exact Json.distinct_mapItems FindTerm.distinct_spelledOut hvalue
    · exact Json.distinct_mapItems Clause.distinct_spelledOut hvalue
    · exact hvalue
  rw [spelledOut, Json.distinct_obj, List.map_map, List.forall_mem_map]
  exact ⟨apart_record.nodup_members hj, fun member hmem =>
    hmember _ _ (Json.Record.every_of_mem_members hj hmem)⟩

/-- What is spelled out is read as the same document. -/
theorem ofJson_spelledOut {j : Json} (hj : j.Distinct) {d : Document} (h : ofJson j = .ok d) :
    ofJson (spelledOut j) = .ok d := by
  obtain ⟨⟨find, hfind, hterms⟩, hkeys, hinputs, hclauses, hargs⟩ :=
    (ofJson_obj_iff (apart_record.nodup_members hj)).mp (ofJson_members h)
  have hnames := apart_record.nodup_members (distinct_spelledOut hj)
  -- Sections of other names are left as they are.
  have hsame : ∀ (name : String), spelledMember name = id →
      Json.lookup name (record.members (spelledOut j)) = Json.lookup name (record.members j) := by
    intro name hid
    rw [lookup_spelledOut, hid, Option.map_id_fun, id]
  refine (ofJson_obj_iff hnames).mpr ⟨?_, ?_, ?_, ?_, ?_⟩
  · refine ⟨_, by rw [lookup_spelledOut, hfind, Option.map_some], ?_⟩
    exact Json.reads_each_mapItems FindTerm.reads_spelledOut hterms
  · rwa [hsame "keys" rfl]
  · rwa [hsame "in" rfl]
  · rw [lookup_spelledOut]
    exact hclauses.mapItems Clause.reads_spelledOut
  · rwa [hsame "args" rfl]

/-- A value without lists is what it is spelled out as. -/
theorem spelledOut_eq_self {j : Json} (hj : j.Distinct) {d : Document} (h : ofJson j = .ok d)
    (hunlisted : Unlisted j) : spelledOut j = j := by
  obtain ⟨members, rfl⟩ := (Json.Record.isList_or_exists_of_reads
    (ofJson_eq_ok_iff.mp h)).resolve_left hunlisted.document
  have hnames := ((Json.distinct_obj members).mp hj).1
  -- Names differ, so the section of a name is what stands in its one member.
  have hsection : ∀ {name : String} {value : Json}, (name, value) ∈ members →
      sectionOf name (.obj members) = itemsOf (some value) := by
    intro name value hmem
    rw [sectionOf, Json.Record.members, (Json.lookup_eq_some_iff hnames).mpr hmem]
  have hmember : ∀ member ∈ members, (member.1, spelledMember member.1 member.2) = id member := by
    rintro ⟨name, value⟩ hmem
    rw [id, Prod.mk.injEq, and_iff_right rfl, spelledMember]
    split_ifs with hfind hwhere
    · have hitems := hunlisted.find
      rw [← hfind, hsection hmem] at hitems
      exact Json.mapItems_eq_self fun item hitem => FindTerm.spelledOut_eq_self (hitems item hitem)
    · have hitems := hunlisted.clauses
      rw [← hwhere, hsection hmem] at hitems
      exact Json.mapItems_eq_self fun item hitem => Clause.spelledOut_eq_self (hitems item hitem)
    · rfl
  rw [spelledOut, Json.Record.members, List.map_congr_left hmember, List.map_id]

theorem inObjectForm_iff_unlisted {j : Json} (hj : j.Distinct) {d : Document}
    (h : ofJson j = .ok d) : InObjectForm j ↔ Unlisted j := by
  have hdocument : HasMembers ["find"] j ↔ ¬ j.IsList :=
    apart_record.hasMembers_iff needs (ofJson_eq_ok_iff.mp h)
  have hfind : ∀ item ∈ sectionOf "find" j,
      ((∃ text, item = .str text) ∨ HasMembers ["pull", "entity"] item ↔ ¬ item.IsList) := by
    intro item hitem
    obtain ⟨⟨find, hfound, hterms⟩, -⟩ :=
      (ofJson_obj_iff (apart_record.nodup_members hj)).mp (ofJson_members h)
    obtain ⟨items, rfl, hitems⟩ := Json.reads_each_iff.mp hterms
    rw [sectionOf, hfound, Json.itemsOf_arr] at hitem
    -- Each item of the section is read as one of the terms.
    have hflip : List.Forall₂ (fun t item => Reads FindTerm.decode item t) d.find items :=
      hitems.flip
    obtain ⟨t, -, ht⟩ := Json.exists_item_of_mem hflip hitem
    exact FindTerm.objectForm_iff ht
  constructor
  · rintro ⟨hobject, hterms, hclauses⟩
    exact ⟨hdocument.mp hobject, fun item hitem => (hfind item hitem).mp (hterms item hitem),
      fun item hitem hrule => (Clause.objectForm_iff hrule).mp (hclauses item hitem hrule)⟩
  · rintro ⟨hobject, hterms, hclauses⟩
    exact ⟨hdocument.mpr hobject, fun item hitem => (hfind item hitem).mpr (hterms item hitem),
      fun item hitem hrule => (Clause.objectForm_iff hrule).mpr (hclauses item hitem hrule)⟩

/-- What is read as a document has the form of objects exactly if no record in it is a list. It
always stands for a value that has this form and is read as the same document. -/
theorem inObjectForm_iff {j : Json} (hj : j.Distinct) {d : Document} (h : ofJson j = .ok d) :
    (InObjectForm j ↔ Unlisted j) ∧ (Unlisted j ↔ spelledOut j = j) ∧
      (spelledOut j).Distinct ∧ InObjectForm (spelledOut j) ∧ ofJson (spelledOut j) = .ok d := by
  have hdistinct := distinct_spelledOut hj
  have hread := ofJson_spelledOut hj h
  have hsame : Unlisted j ↔ spelledOut j = j := by
    constructor
    · exact spelledOut_eq_self hj h
    · intro heq
      rw [← heq]
      exact unlisted_spelledOut j
  exact ⟨inObjectForm_iff_unlisted hj h, hsame, hdistinct,
    (inObjectForm_iff_unlisted hdistinct hread).mpr (unlisted_spelledOut j), hread⟩

/-- The value of a document with a pull and a rule. -/
def pulledRule : Json :=
  .obj [("where", .arr [.obj [("value", .arr [.str "r", .str "?e"]), ("type", .str "rule")]]),
    ("find", .arr [.obj [("entity", .str "?e"), ("pull", .arr [.str "*"])], .str "."])]

theorem pulledRule_inObjectForm :
    pulledRule.Distinct ∧
      ofJson pulledRule = .ok
        { find := [.pull ⟨[.wildcard], "?e"⟩, .single],
          clauses := some [.rule ⟨"r", [.text "?e"]⟩] } ∧
      InObjectForm pulledRule := by
  have hdistinct : pulledRule.Distinct := by
    simp [pulledRule, Json.Distinct, Json.NamesOnce, Json.Every, Json.EveryItem, Json.EveryMember]
  have hread : ofJson pulledRule = .ok
      { find := [.pull ⟨[.wildcard], "?e"⟩, .single],
        clauses := some [.rule ⟨"r", [.text "?e"]⟩] } := rfl
  obtain ⟨hform, hsame, -⟩ := inObjectForm_iff hdistinct hread
  exact ⟨hdistinct, hread, hform.mpr (hsame.mpr rfl)⟩

/-- The value of a document with a pattern that looks like the list of what a rule holds. -/
def listedRule : Json :=
  .obj [("find", .arr [.str "?e"]),
    ("where", .arr [.arr [.str "rule", .arr [.str "r", .str "?e"]]])]

/-- The list is read as the rule, which has not the form of an object. -/
theorem listedRule_read :
    listedRule.Distinct ∧
      ofJson listedRule = .ok
        { find := [.var "?e"], clauses := some [.rule ⟨"r", [.text "?e"]⟩] } ∧
      ¬ InObjectForm listedRule := by
  have hdistinct : listedRule.Distinct := by
    simp [listedRule, Json.Distinct, Json.NamesOnce, Json.Every, Json.EveryItem]
  refine ⟨hdistinct, rfl, fun hform => ?_⟩
  have hrule : Clause.IsRule (.arr [.str "rule", .arr [.str "r", .str "?e"]]) :=
    ⟨⟨"r", [.text "?e"]⟩, rfl⟩
  obtain ⟨members, hmembers, -⟩ := hform.clauses _ List.mem_cons_self hrule
  cases hmembers

end Document

end DatalogClient
