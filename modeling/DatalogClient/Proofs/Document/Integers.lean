import DatalogClient.Proofs.Document.Normalization
import DatalogClient.Proofs.Json.Records
import DatalogClient.Proofs.Value.Integers

/-!
# Integers of documents

Inside the value of a document there are values that are read as literals: arguments, what stands
in clauses, and what options are given. A document that was read is written with as many of them in
the same order, each of them rewritten as a literal by itself. So the integers in them are kept or
lost where those of literals are.

## Main definitions

* `Document.literalsIn` — the values inside that of a document that are read as literals
* `Document.integersIn` — the integers in them

## Main results

* `Document.rewritten_literalsIn` — literals are rewritten one by one
* `Document.integers_kept_iff` — which integers are there again
-/

namespace DatalogClient

open Json (Reads MemberRead)
open Value (Rewritten KeepsHere marksKind)

/-! ### Where literals stand -/

/-- The items of a list, if one is there. -/
def Json.itemsOf : Option Json → List Json
  | some (.arr items) => items
  | _ => []

@[simp] theorem Json.itemsOf_arr (items : List Json) : itemsOf (some (.arr items)) = items := rfl

/-- The argument of an option. -/
def AttrOption.literalsIn : List Json → List Json
  | [_, _, argument] => [argument]
  | _ => []

/-- The argument of a key, if the key is an option. -/
def MapKey.literalsIn : Option Json → List Json
  | some (.arr items) => AttrOption.literalsIn items
  | _ => []

/-- The literals of a map spec, of whose members the literals in their targets are known. -/
def MapSpec.gather (members : List (String × Json)) (targets : List (String × List Json)) :
    List Json :=
  if isKeyed (members.map (·.1)) then
    MapKey.literalsIn (Json.lookup "key" members) ++ (Json.lookup "selector" targets).getD []
  else targets.flatMap (·.2)

mutual

/-- The values inside that of a spec that are read as literals. -/
def AttrSpec.literalsIn : Json → List Json
  | .arr items => AttrOption.literalsIn items
  | .obj members => MapSpec.gather members (MapSpec.literalsInTargets members)
  | _ => []

/-- The values inside that of a target that are read as literals. -/
def MapTarget.literalsIn : Json → List Json
  | .arr items => AttrSpec.literalsInPattern items
  | _ => []

/-- The values inside the targets of members that are read as literals. -/
def MapSpec.literalsInTargets : List (String × Json) → List (String × List Json)
  | [] => []
  | (name, value) :: rest => (name, MapTarget.literalsIn value) :: MapSpec.literalsInTargets rest

/-- The values inside those of a pattern that are read as literals. -/
def AttrSpec.literalsInPattern : List Json → List Json
  | [] => []
  | item :: rest => AttrSpec.literalsIn item ++ AttrSpec.literalsInPattern rest

end

/-- The values inside that of a term that are read as literals. -/
def FindTerm.literalsIn (j : Json) : List Json :=
  (Json.itemsOf (Json.lookup "pull" (Pull.record.members j))).flatMap AttrSpec.literalsIn

/-- The values inside that of a clause that are read as literals. -/
def Clause.literalsIn (j : Json) : List Json :=
  match RuleUsage.decode (.ofJson j) with
  | .ok _ => Json.itemsOf (Json.lookup "value" (RuleUsage.record.members j))
  | .error _ => Json.itemsOf (some j)

namespace Document

/-- The values inside that of a document that are read as literals. -/
def literalsIn (j : Json) : List Json :=
  (Json.itemsOf (Json.lookup "find" (record.members j))).flatMap FindTerm.literalsIn ++
    ((Json.itemsOf (Json.lookup "where" (record.members j))).flatMap Clause.literalsIn ++
      Json.itemsOf (Json.lookup "args" (record.members j)))

/-- The integers inside the values that are read as literals. -/
def integersIn (j : Json) : List Int := (literalsIn j).flatMap Json.integers

end Document

@[simp] theorem MapSpec.literalsInTargets_eq_map (members : List (String × Json)) :
    literalsInTargets members =
      members.map fun member => (member.1, MapTarget.literalsIn member.2) := by
  induction members with
  | nil => rfl
  | cons member rest ih => rw [literalsInTargets, ih, List.map_cons]

@[simp] theorem AttrSpec.literalsInPattern_eq_flatMap (items : List Json) :
    literalsInPattern items = items.flatMap literalsIn := by
  induction items with
  | nil => rfl
  | cons item rest ih => rw [literalsInPattern, ih, List.flatMap_cons]

/-! ### Rewriting one by one -/

/-- Lists that correspond piece by piece correspond as a whole. -/
theorem forall₂_flatMap {α β γ δ : Type} {R : α → β → Prop} {P : γ → δ → Prop} {f : α → List γ}
    {g : β → List δ} {items : List α} {others : List β} (h : List.Forall₂ R items others)
    (hpiece : ∀ a ∈ items, ∀ b, R a b → List.Forall₂ P (f a) (g b)) :
    List.Forall₂ P (items.flatMap f) (others.flatMap g) := by
  have hboth : List.Forall₂ (fun a b => a ∈ items ∧ R a b) items others :=
    (List.forall₂_and_left items others).mpr ⟨fun _ ha => ha, h⟩
  exact List.rel_flatMap hboth fun a b hab => hpiece a hab.1 b hab.2

/-- The argument that an option was read from is rewritten as a literal, a limit among them. -/
theorem OptionKind.rewritten_argument {label : String} {argument : Json} {value : Value}
    {kind : OptionKind} (hvalue : Value.ofJson? argument = some value)
    (h : of label value = .ok kind) : Rewritten argument kind.argument := by
  refine ⟨value, hvalue, ?_⟩
  rcases of_eq_ok_iff.mp h with ⟨-, name, rfl, rfl⟩ | ⟨-, n, rfl, hneg, rfl⟩ | ⟨-, rfl⟩
  · rfl
  · rw [OptionKind.argument, Value.toJson, toNat_toUInt64 hneg]
  · rfl

theorem AttrOption.rewritten_of_ofItems? {items : List Json} {o : AttrOption}
    (h : ofItems? items = some o) :
    List.Forall₂ Rewritten (literalsIn items)
      (literalsIn [.str o.attr, .str o.kind.label, o.kind.argument]) := by
  obtain ⟨label, argument, rfl, value, hvalue, hkind⟩ := ofItems?_eq_some_iff.mp h
  exact .cons (OptionKind.rewritten_argument hvalue hkind) .nil

theorem MapKey.rewritten_of_ofJson? {j : Json} {key : MapKey} (h : ofJson? j = some key) :
    List.Forall₂ Rewritten (literalsIn (some j)) (literalsIn (some key.toJson)) := by
  rw [ofJson?.eq_def] at h
  split at h
  · obtain rfl := Option.some.inj h
    exact .nil
  · obtain ⟨o, ho, rfl⟩ := Option.map_eq_some_iff.mp h
    exact AttrOption.rewritten_of_ofItems? ho
  · cases h

/-- The literals of a spec that was read, and those of a target, are rewritten one by one. -/
theorem AttrSpec.rewritten_steps :
    ReadSteps (fun j s => List.Forall₂ Rewritten (literalsIn j) (literalsIn s.toJson))
      fun j target => List.Forall₂ Rewritten (MapTarget.literalsIn j)
        (MapTarget.literalsIn target.toJson) where
  text text := by
    rw [ofText]
    split_ifs <;> exact .nil
  option items o ho := AttrOption.rewritten_of_ofItems? ho
  attrs members entries _ hplain hentries := by
    -- The names stay, so what is no selector is written as none.
    have hsame : (MapSpec.entriesToJson entries).map (·.1) = members.map (·.1) := by
      rw [MapSpec.entriesToJson_eq_map, List.map_map, MapSpec.map_fst_eq_of_forall₂ hentries]
      rfl
    rw [← MapSpec.isKeyed_iff] at hplain
    rw [toJson, MapSpec.toJson, literalsIn, literalsIn, MapSpec.gather, MapSpec.gather, hsame,
      if_neg hplain, if_neg hplain, MapSpec.literalsInTargets_eq_map,
      MapSpec.literalsInTargets_eq_map, MapSpec.entriesToJson_eq_map, List.flatMap_map,
      List.flatMap_map, List.flatMap_map]
    exact List.rel_flatMap hentries fun _ _ h => h.2
  keyed members key selector k v hkeyed hk hkey hv hselector := by
    -- The key is written before the selector, in whatever order they were read.
    rw [← MapSpec.isKeyed_iff] at hkeyed
    rw [toJson, MapSpec.toJson, literalsIn, MapSpec.gather, if_pos hkeyed,
      MapSpec.literalsInTargets_eq_map, Json.lookup_map, hk, hv]
    exact List.rel_append (MapKey.rewritten_of_ofJson? hkey) hselector
  pattern items specs hspecs := by
    rw [MapTarget.toJson, patternToJson_eq_map, MapTarget.literalsIn, MapTarget.literalsIn,
      literalsInPattern_eq_flatMap, literalsInPattern_eq_flatMap, List.flatMap_map]
    exact List.rel_flatMap hspecs fun _ _ h => h
  recursion j limit hlimit := by
    have hnone : MapTarget.literalsIn j = [] := by
      cases j <;> first | rfl | cases hlimit
    rw [hnone]
    cases limit <;> exact .nil

/-! ### Terms -/

theorem Pull.apart_record : record.Apart :=
  Json.Record.apart_pair rfl (by decide) ⟨rfl, rfl⟩ (fun _ _ => rfl) fun _ _ => rfl

/-- The pattern of a pull is read from the member of its name. -/
theorem Pull.exists_pattern {j : Json} (hj : j.Distinct) {p : Pull} (h : Reads decode j p) :
    ∃ items, Json.lookup "pull" (record.members j) = some (.arr items) ∧
      List.Forall₂ (Reads AttrSpec.decode) items p.pattern := by
  have hothers : ∀ other ∈ record.fields, other.name ≠ "pull" → other.Keeps Draft.pattern := by
    intro other hother hne
    simp only [record, List.mem_cons, List.not_mem_nil, or_false] at hother
    rcases hother with rfl | rfl
    · exact absurd rfl hne
    · exact Json.RecordField.keeps_of fun _ _ => rfl
  have hneed : ∀ draft p, record.build draft = .ok p → draft.pattern ≠ none := by
    rintro ⟨pattern, entity⟩ p hbuild ⟨⟩
    cases hbuild
  obtain ⟨value, specs, ⟨pattern, entity⟩, hfound, hread, hbuild, ⟨⟩⟩ :=
    apart_record.exists_lookup "pull" rfl (fun _ _ => rfl) hothers rfl hneed hj h
  cases entity with
  | none => cases hbuild
  | some entity =>
    obtain rfl := Except.ok.inj hbuild
    obtain ⟨items, rfl, hitems⟩ := Json.reads_each_iff.mp hread
    exact ⟨items, hfound, hitems⟩

/-- The literals of a term that was read are rewritten one by one. -/
theorem FindTerm.rewritten_of_ofJson? {j : Json} (hj : j.Distinct) {t : FindTerm}
    (h : ofJson? j = some t) : List.Forall₂ Rewritten (literalsIn j) (literalsIn t.toJson) := by
  cases t with
  | pull p =>
    obtain ⟨items, hfound, hitems⟩ := Pull.exists_pattern hj (ofJson?_eq_pull_iff.mp h)
    have hdistinct := Json.Record.every_lookup hj hfound
    rw [literalsIn, hfound, Json.itemsOf_arr]
    have hwritten : literalsIn (FindTerm.pull p).toJson =
        p.pattern.flatMap fun s => AttrSpec.literalsIn s.toJson := by
      rw [← List.flatMap_map, ← AttrSpec.patternToJson_eq_map]
      rfl
    rw [hwritten]
    refine forall₂_flatMap hitems fun item hitem s hs => ?_
    rw [AttrSpec.decode, Json.reads_inSomeForm_iff] at hs
    have hitem := (Json.distinct_arr items).mp hdistinct item hitem
    exact (AttrSpec.rewritten_steps.of_read hitem false).1 s hs
  | var text | single | many =>
    -- Only a string is read as a term other than a pull.
    cases j with
    | str s => exact .nil
    | null | bool _ | num _ | arr _ | obj _ => simp [ofJson?] at h

/-! ### Clauses -/

theorem RuleUsage.apart_record : record.Apart :=
  Json.Record.apart_pair rfl (by decide) ⟨rfl, rfl⟩ (fun _ _ => rfl) fun _ _ => rfl

/-- The name and the arguments of a rule are read from the member of the value. -/
theorem RuleUsage.exists_items {j : Json} (hj : j.Distinct) {r : RuleUsage}
    (h : Reads decode j r) :
    ∃ items, Json.lookup "value" (record.members j) = some (.arr items) ∧
      Value.listOfJson? items = some (.text r.name :: r.args) := by
  have hothers : ∀ other ∈ record.fields, other.name ≠ "value" → other.Keeps Draft.items := by
    intro other hother hne
    simp only [record, List.mem_cons, List.not_mem_nil, or_false] at hother
    rcases hother with rfl | rfl
    · exact Json.RecordField.keeps_of fun _ _ => rfl
    · exact absurd rfl hne
  have hneed : ∀ draft parts, record.build draft = .ok parts → draft.items ≠ none := by
    rintro ⟨found, items⟩ parts hbuild ⟨⟩
    cases found <;> cases hbuild
  obtain ⟨value, values, ⟨found, items⟩, hfound, hread, hbuild, ⟨⟩⟩ :=
    apart_record.exists_lookup "value" rfl (fun _ _ => rfl) hothers rfl hneed hj
      (reads_decode_iff.mp h)
  cases found with
  | none => cases hbuild
  | some found =>
    obtain ⟨inner, rfl, hinner⟩ := Value.reads_each_decode_iff.mp hread
    have hvalues : values = .text r.name :: r.args := congrArg Prod.snd (Except.ok.inj hbuild)
    exact ⟨inner, hfound, by rw [hinner, hvalues]⟩

/-- Values that are read as literals are rewritten one by one. -/
theorem Value.rewritten_of_listOfJson? {items : List Json} {values : List Value}
    (h : listOfJson? items = some values) :
    List.Forall₂ Rewritten items (values.map toJson) := by
  rw [List.forall₂_map_right_iff]
  exact (listOfJson?_eq_some_iff.mp h).imp fun _ v hv => ⟨v, hv, rfl⟩

/-- The literals of a clause that was read are rewritten one by one. -/
theorem Clause.rewritten_of_ofJson? {j : Json} (hd : j.Distinct) (hf : j.Finite) {c : Clause}
    (h : ofJson? j = some c) : List.Forall₂ Rewritten (literalsIn j) (literalsIn c.toJson) := by
  have hagain : ofJson? c.toJson = some c :=
    (ofJson?_toJson_iff c).mpr (canonical_of_ofJson? hf h)
  by_cases hc : ∃ r, c = .rule r
  · obtain ⟨r, rfl⟩ := hc
    rw [ofJson?_eq_rule_iff] at h hagain
    obtain ⟨items, hfound, hitems⟩ := RuleUsage.exists_items hd h
    have hread : RuleUsage.decode (.ofJson j) = .ok r := h
    have hwritten : RuleUsage.decode (.ofJson (rule r).toJson) = .ok r := hagain
    rw [literalsIn, literalsIn, hread, hwritten]
    simp only [hfound, Json.itemsOf_arr]
    rw [toJson, RuleUsage.toJson_eq]
    exact Value.rewritten_of_listOfJson? hitems
  · rw [not_exists] at hc
    obtain ⟨hnorule, items, rfl, values, hvalues, rfl⟩ := (ofJson?_eq_some_iff hc).mp h
    obtain ⟨hnorule', -⟩ := (ofJson?_eq_some_iff hc).mp hagain
    -- The clause is written as the list that it was read from, and neither is read as a rule.
    have hlist : ∀ items : List Json, (∀ r, ¬ Reads RuleUsage.decode (.arr items) r) →
        literalsIn (.arr items) = items := by
      intro items hitems
      rw [literalsIn]
      cases hread : RuleUsage.decode (.ofJson (.arr items)) with
      | ok r => exact absurd hread (hitems r)
      | error problem => rfl
    rw [toJson_eq_arr hc, literals_ofItems] at hnorule' ⊢
    rw [hlist items hnorule, hlist _ hnorule']
    exact Value.rewritten_of_listOfJson? hvalues

/-! ### Documents -/

/-- The items of a list that was read. What is null has none. -/
theorem Json.MemberRead.forall₂ {α : Type} {decode : Decoder α} {found : Option Json}
    {value : Option (List α)} (h : MemberRead (Json.each decode) found value) :
    List.Forall₂ (Reads decode) (Json.itemsOf found) (value.getD []) := by
  cases found with
  | none =>
    cases h
    exact .nil
  | some j =>
    rcases Json.reads_optional_iff.mp h with ⟨rfl, rfl⟩ | ⟨-, values, rfl, hread⟩
    · exact .nil
    · obtain ⟨items, rfl, hitems⟩ := Json.reads_each_iff.mp hread
      exact hitems

namespace Document

theorem apart_record : record.Apart where
  names := by decide
  blank := by simp [record, Json.RecordField.of]
  leaves := by
    simp only [record, List.pairwise_cons, List.forall_mem_cons, List.not_mem_nil, false_imp_iff,
      implies_true, List.Pairwise.nil, and_true]
    and_intros
    all_goals exact Json.RecordField.leaves_of fun _ _ => rfl

/-- What was read is read from the object of its members as well. -/
theorem ofJson_members {j : Json} {d : Document} (h : ofJson j = .ok d) :
    ofJson (.obj (record.members j)) = .ok d := by
  rw [ofJson_eq_ok_iff] at h ⊢
  exact apart_record.reads_members h

theorem itemsOf_section {α : Type} (write : α → Json) (items : Option (List α)) :
    Json.itemsOf (items.map fun items => .arr (items.map write)) = (items.getD []).map write := by
  cases items <;> rfl

/-- The literals of a document that is written, section by section. -/
theorem literalsIn_wire (d : Document) :
    literalsIn d.wire = d.find.flatMap (fun t => FindTerm.literalsIn t.toJson) ++
      ((d.clauses.getD []).flatMap (fun c => Clause.literalsIn c.toJson) ++
        (d.args.getD []).map Value.toJson) := by
  have hmembers : record.members d.wire = ("find", .arr (d.find.map FindTerm.toJson)) ::
      (memberIf "keys" .str d.keys ++ memberIf "in" Binding.toJson d.inputs ++
        memberIf "where" Clause.toJson d.clauses ++ memberIf "args" Value.toJson d.args) := rfl
  rw [literalsIn, hmembers]
  simp only [Json.lookup_cons, Json.lookup_append, lookup_memberIf, String.reduceEq, if_true,
    if_false, Option.none_or, Option.or_none, itemsOf_section, Json.itemsOf_arr, List.flatMap_map]

/-- The literals of a document that was read are rewritten one by one. -/
theorem rewritten_literalsIn {j : Json} (hd : j.Distinct) (hf : j.Finite) {d : Document}
    (h : ofJson j = .ok d) : List.Forall₂ Rewritten (literalsIn j) (literalsIn d.toJson) := by
  have hcanonical := canonical_of_decode hd hf (ofJson_eq_ok_iff.mp h)
  obtain ⟨⟨find, hfind, hterms⟩, -, -, hclauses, hargs⟩ :=
    (ofJson_obj_iff (apart_record.nodup_members hd)).mp (ofJson_members h)
  have hwire : d.toJson = d.wire := toJson_eq_wire fun p hp s hs =>
    (hcanonical.find _ hp s hs).entriesDiffer
  have hinside : ∀ (p : Json → Prop), j.Every p → ∀ name,
      ∀ item ∈ Json.itemsOf (Json.lookup name (record.members j)), item.Every p := by
    intro p hj name item hitem
    cases hfound : Json.lookup name (record.members j) with
    | none => simp [hfound, Json.itemsOf] at hitem
    | some value =>
      have hvalue := Json.Record.every_lookup hj hfound
      cases value with
      | arr items =>
        rw [hfound] at hitem
        exact ((Json.every_arr items).mp hvalue).2 item hitem
      | null | bool _ | num _ | str _ | obj _ => simp [hfound, Json.itemsOf] at hitem
  rw [hwire, literalsIn_wire, literalsIn]
  refine List.rel_append ?_ (List.rel_append ?_ ?_)
  · obtain ⟨items, rfl, hitems⟩ := Json.reads_each_iff.mp hterms
    have hdistinct := hinside _ hd "find"
    rw [hfind, Json.itemsOf_arr] at hdistinct ⊢
    refine forall₂_flatMap hitems fun item hitem t ht => ?_
    exact FindTerm.rewritten_of_ofJson? (hdistinct item hitem) (FindTerm.reads_decode_iff.mp ht)
  · refine forall₂_flatMap hclauses.forall₂ fun item hitem c hc => ?_
    exact Clause.rewritten_of_ofJson? (hinside _ hd _ item hitem) (hinside _ hf _ item hitem)
      (Clause.reads_decode_iff.mp hc)
  · rw [List.forall₂_map_right_iff]
    exact hargs.forall₂.imp fun _ v hv => ⟨v, Value.reads_decode_iff.mp hv, rfl⟩

/-- The integers of a value that is read as a literal are written again exactly if signed words hold
them and they do not stand in what is read as a typed text. So it is with the literals inside a
JSON value proper that is read as a document. -/
theorem integers_kept_iff (j : Json) :
    (∀ v : Value, Value.ofJson? j = some v →
      (v.toJson.integers = j.integers ↔ j.Every KeepsHere)) ∧
    (j.Distinct → j.Finite → ∀ d : Document, ofJson j = .ok d →
      List.Forall₂ Rewritten (literalsIn j) (literalsIn d.toJson) ∧
        (integersIn d.toJson).Sublist (integersIn j) ∧
        (integersIn d.toJson = integersIn j ↔ ∀ value ∈ literalsIn j, value.Every KeepsHere)) := by
  constructor
  · intro v hread
    exact (Value.integers_toJson hread).2
  · intro hd hf d hread
    have hliterals := rewritten_literalsIn hd hf hread
    exact ⟨hliterals, Json.flatMap_sublist_and_eq_iff hliterals fun _ _ _ h => h.integers⟩

/-- The value of a document in which integers stand in every place for literals. -/
def numericJson : Json :=
  .obj [("args", .arr [.int (-9223372036854775808)]),
    ("where", .arr [.arr [.str "?e", .str "a/b", .int 9223372036854775807],
      .arr [.str "rule", .arr [.str "r", .arr [.int 8, .str "x"]]]]),
    ("find", .arr [.obj [("entity", .str "?e"), ("pull", .arr [.obj [("a/b", .arr [
      .arr [.str "a/c", .str "limit", .int 3],
      .arr [.str "a/d", .str "default", .int 9007199254740993]])]])]])]

/-- What it is read as. -/
def numeric : Document where
  find := [.pull
    ⟨[.nested "a/b" [.limit "a/c" 3, .withDefault "a/d" (.int 9007199254740993)]], "?e"⟩]
  clauses := some [.pattern [.text "?e", .text "a/b", .int 9223372036854775807],
    .rule ⟨"r", [.list [.int 8, .text "x"]]⟩]
  args := some [.int (-9223372036854775808)]

/-- Signed words hold all these integers, so all of them are written again. -/
theorem numeric_kept :
    (Value.int 9007199254740993).toJson.integers = [9007199254740993] ∧
      integersIn numericJson =
        [3, 9007199254740993, 9223372036854775807, 8, -9223372036854775808] ∧
      ofJson numericJson = .ok numeric ∧ integersIn numeric.toJson = integersIn numericJson := by
  have hread : ofJson numericJson = .ok numeric := rfl
  have hd : numericJson.Distinct := by
    simp [numericJson, Json.Distinct, Json.NamesOnce, Json.Every, Json.EveryItem, Json.EveryMember,
      Json.int]
  have hf : numericJson.Finite := by
    simp [numericJson, Json.Finite, Json.FiniteNumber, Json.Every, Json.EveryItem, Json.EveryMember,
      Json.int]
  have hliterals : literalsIn numericJson = [.int 3, .int 9007199254740993, .str "?e", .str "a/b",
      .int 9223372036854775807, .str "r", .arr [.int 8, .str "x"], .int (-9223372036854775808)] :=
    rfl
  have hkept : ∀ value ∈ literalsIn numericJson, value.Every KeepsHere := by
    rw [hliterals]
    simp only [List.forall_mem_cons, List.not_mem_nil, false_imp_iff, implies_true, Json.int,
      Json.Every, Json.EveryItem, KeepsHere]
    decide
  have hfits : (Json.int 9007199254740993).Every KeepsHere := by
    rw [Json.int, Json.Every, KeepsHere]
    decide
  exact ⟨((integers_kept_iff (.int 9007199254740993)).1 _ rfl).mpr hfits, rfl, hread,
    ((integers_kept_iff numericJson).2 hd hf numeric hread).2.2.mpr hkept⟩

/-- A document with an argument that no signed word holds. -/
def greatArgument : Json :=
  .obj [("find", .arr [.str "?e"]), ("args", .arr [.int 18446744073709551615])]

/-- What it is read as: the argument is no integer any more. -/
def roundedArgument : Document where
  find := [.var "?e"]
  args := some [.float (18446744073709551615 : UInt64).toFloat]

/-- The argument is read, though no signed word holds it, and is not written as the integer that it
was. -/
theorem greatArgument_lost :
    Value.ofJson? (.int 18446744073709551615) =
        some (.float (18446744073709551615 : UInt64).toFloat) ∧
      (Value.float (18446744073709551615 : UInt64).toFloat).toJson.integers = [] ∧
      ofJson greatArgument = .ok roundedArgument ∧
      integersIn greatArgument = [18446744073709551615] ∧
      integersIn roundedArgument.toJson = [] := by
  have hwire : roundedArgument.toJson = roundedArgument.wire :=
    toJson_eq_wire fun p hp => by simp [roundedArgument] at hp
  refine ⟨rfl, Value.integers_toJson_float _, rfl, rfl, ?_⟩
  rw [hwire, integersIn, literalsIn_wire]
  simp [roundedArgument, Value.integers_toJson_float, FindTerm.toJson, FindTerm.literalsIn,
    Json.Record.members, Json.itemsOf]

end Document

end DatalogClient
