import DatalogClient.Proofs.Json.Records
import DatalogClient.Schema.Wire

/-!
# What is read of a schema

An entry and a shape are read from an object, or from the list of what their fields hold. Of an
entry only the name and the namespace must be told. A flag that is absent is not set, and other
members may be absent or null.

## Main definitions

* `SchemaEntry.ToldBy`, `EntityShape.ToldBy` — members tell what an entry or a shape is

## Main results

* `Uniqueness.reads_iff`, `Moment.reads_iff` — the parts of an entry
* `SchemaEntry.reads_iff`, `EntityShape.reads_iff` — which values are read, and as what
* `SchemaEntry.reads_toJson_iff` — which entries are read back
-/

namespace DatalogClient

open Json (FilledFrom MemberRead Reads lookup)

/-! ### Parts -/

/-- A uniqueness is its name, alone or as the name of a null. -/
theorem Uniqueness.reads_iff {j : Json} {u : Uniqueness} :
    Reads decode j u ↔ j = .str u.name ∨ j = .obj [(u.name, .null)] := by
  have hnames : (([.value, .identity].map fun u : Uniqueness =>
      .plain u.name u).map Json.Choice.name).Nodup := by decide
  rw [decode]
  cases j with
  | str name =>
    rw [Json.reads_choice_str_iff hnames]
    cases u <;> simp [Uniqueness.name]
  | obj members =>
    rw [Json.reads_choice_obj_iff hnames]
    cases u <;> simp [Uniqueness.name, Json.Choice.name, Json.reads_beside_plain_iff]
  | null | bool _ | num _ | arr _ => simp [Reads, Json.choice, Located.ofJson]

theorem Moment.reads_iff {j : Json} {m : Moment} :
    Reads decode j m ↔ ∃ text, j = .str text ∧ ofText text = .ok m := by
  cases j with
  | str text => cases h : ofText text <;> simp [Reads, Located.ofJson, decode, h, Except.mapError]
  | null | bool _ | num _ | arr _ | obj _ => simp [Reads, Located.ofJson, decode]

section Members

variable {found : Option Json} {value : Json}

theorem reads_text_of {s : String} (h : found = some (.str s)) (hvalue : found = some value) :
    Reads Json.text value s :=
  Json.reads_text_iff.mpr (Option.some.inj (hvalue.symm.trans h))

theorem reads_flag_of {b : Bool} (h : found.getD (.bool false) = .bool b)
    (hvalue : found = some value) : Reads Json.flag value b := by
  rw [hvalue] at h
  exact Json.reads_flag_iff.mpr h

/-- Where no name is twice, anything is read as it is. -/
theorem reads_anything_of_lookup {name : String} {members : List (String × Json)} {read : Json}
    (hmembers : ∀ member ∈ members, member.2.Distinct) (h : lookup name members = some value) :
    Reads Json.anything value read ↔ value = read := by
  obtain ⟨member, hfind, rfl⟩ := Option.map_eq_some_iff.mp h
  rw [Json.reads_anything_iff, Json.collapse_eq_self (hmembers _ (List.mem_of_find?_eq_some hfind))]

theorem Json.MemberRead.reads {α : Type} {decode : Decoder α} {a : Option α}
    (h : MemberRead decode found a) (hvalue : found = some value) :
    Reads (Json.optional decode) value a := by
  rw [hvalue] at h
  exact h

theorem Json.MemberRead.eq {α : Type} {decode : Decoder α} {a b : Option α}
    (h : MemberRead decode found a) (h' : MemberRead decode found b) : a = b := by
  cases found with
  | none => exact Eq.trans h (Eq.symm h')
  | some value => exact Except.ok.inj (Eq.trans (Eq.symm h) h')

/-- A flag that has no member is not set. -/
theorem getD_of_filledFrom_flag {after : Option Bool} (h : FilledFrom Json.flag found none after) :
    found.getD (.bool false) = .bool (after.getD false) := by
  cases found with
  | none =>
    rw [Json.filledFrom_none] at h
    rw [h]
    rfl
  | some value =>
    obtain ⟨-, b, hread, rfl⟩ := h
    exact Json.reads_flag_iff.mp hread

end Members

/-! ### Entries -/

namespace SchemaEntry

variable {e : SchemaEntry} {members : List (String × Json)}

/-- The members tell what the entry is. A flag without a member is not set, and what may be absent
may be null as well. -/
structure ToldBy (members : List (String × Json)) (e : SchemaEntry) : Prop where
  ident : lookup "ident" members = some (.str e.ident)
  nameSpace : lookup "namespace" members = some (.str e.nameSpace)
  valueType : MemberRead Json.text (lookup "valueType" members) e.valueType
  cardinality : MemberRead Json.text (lookup "cardinality" members) e.cardinality
  isIdent : (lookup "isIdent" members).getD (.bool false) = .bool e.isIdent
  isFunction : (lookup "isFunction" members).getD (.bool false) = .bool e.isFunction
  isAttribute : (lookup "isAttribute" members).getD (.bool false) = .bool e.isAttribute
  isUnique : (lookup "isUnique" members).getD (.bool false) = .bool e.isUnique
  isComponent : (lookup "isComponent" members).getD (.bool false) = .bool e.isComponent
  unique : MemberRead Uniqueness.decode (lookup "unique" members) e.unique
  doc : MemberRead Json.text (lookup "doc" members) e.doc
  function : MemberRead Json.text (lookup "function" members) e.function
  updatedAt : MemberRead Moment.decode (lookup "updatedAt" members) e.updatedAt

theorem apart_record : record.Apart where
  names := by decide
  blank := by simp [record, fields, Json.RecordField.of]
  leaves := by
    -- Each field has a place of its own in the draft, so that any two leave each other alone.
    simp only [record, fields, List.pairwise_cons, List.forall_mem_cons, List.not_mem_nil,
      false_imp_iff, implies_true, List.Pairwise.nil, and_true]
    and_intros
    all_goals exact Json.RecordField.leaves_of fun _ _ => rfl

/-- Every field of the draft is filled from the member of its name. -/
structure Draft.FilledBy (members : List (String × Json)) (d : Draft) : Prop where
  ident : FilledFrom Json.text (lookup "ident" members) none d.ident
  nameSpace : FilledFrom Json.text (lookup "namespace" members) none d.nameSpace
  valueType : FilledFrom (Json.optional Json.text) (lookup "valueType" members) none d.valueType
  cardinality :
    FilledFrom (Json.optional Json.text) (lookup "cardinality" members) none d.cardinality
  isIdent : FilledFrom Json.flag (lookup "isIdent" members) none d.isIdent
  isFunction : FilledFrom Json.flag (lookup "isFunction" members) none d.isFunction
  isAttribute : FilledFrom Json.flag (lookup "isAttribute" members) none d.isAttribute
  isUnique : FilledFrom Json.flag (lookup "isUnique" members) none d.isUnique
  isComponent : FilledFrom Json.flag (lookup "isComponent" members) none d.isComponent
  unique : FilledFrom (Json.optional Uniqueness.decode) (lookup "unique" members) none d.unique
  doc : FilledFrom (Json.optional Json.text) (lookup "doc" members) none d.doc
  function : FilledFrom (Json.optional Json.text) (lookup "function" members) none d.function
  updatedAt : FilledFrom (Json.optional Moment.decode) (lookup "updatedAt" members) none d.updatedAt

theorem filledBy_of_fills (hnames : (members.map (·.1)).Nodup) {final : Draft}
    (h : record.Fills record.blank members final) : final.FilledBy members := by
  constructor
  all_goals
    -- The goal names the place, and from that the field of the record is found.
    refine h.filledFrom_blank (by rfl) (by exact fun _ _ => rfl) ?_ (by rfl) hnames
    -- One field fills the place, and the other twelve keep it.
    intro other hother hne
    simp only [record, fields, List.mem_cons, List.not_mem_nil, or_false] at hother
    rcases hother with rfl | rfl | rfl | rfl | rfl | rfl | rfl | rfl | rfl | rfl | rfl | rfl | rfl
    all_goals first
      | exact absurd rfl hne
      | exact Json.RecordField.keeps_of fun _ _ => rfl

/-- What is built from the draft is what the members tell. -/
theorem Draft.FilledBy.toldBy {d : Draft} (h : d.FilledBy members)
    (hbuild : record.build d = .ok e) : e.ToldBy members := by
  obtain ⟨ident, nameSpace, valueType, cardinality, isIdent, isFunction, isAttribute, isUnique,
    isComponent, unique, doc, function, updatedAt⟩ := d
  cases ident with
  | none => cases hbuild
  | some ident =>
    cases nameSpace with
    | none => cases hbuild
    | some nameSpace =>
      obtain rfl := Except.ok.inj hbuild
      obtain ⟨_, hident, hidentRead⟩ := Json.filledFrom_none_some_iff.mp h.ident
      obtain ⟨_, hnameSpace, hnameSpaceRead⟩ := Json.filledFrom_none_some_iff.mp h.nameSpace
      rw [Json.reads_text_iff] at hidentRead hnameSpaceRead
      exact
        { ident := hidentRead ▸ hident
          nameSpace := hnameSpaceRead ▸ hnameSpace
          valueType := Json.filledFrom_optional_iff.mp ⟨_, h.valueType, rfl⟩
          cardinality := Json.filledFrom_optional_iff.mp ⟨_, h.cardinality, rfl⟩
          isIdent := getD_of_filledFrom_flag h.isIdent
          isFunction := getD_of_filledFrom_flag h.isFunction
          isAttribute := getD_of_filledFrom_flag h.isAttribute
          isUnique := getD_of_filledFrom_flag h.isUnique
          isComponent := getD_of_filledFrom_flag h.isComponent
          unique := Json.filledFrom_optional_iff.mp ⟨_, h.unique, rfl⟩
          doc := Json.filledFrom_optional_iff.mp ⟨_, h.doc, rfl⟩
          function := Json.filledFrom_optional_iff.mp ⟨_, h.function, rfl⟩
          updatedAt := Json.filledFrom_optional_iff.mp ⟨_, h.updatedAt, rfl⟩ }

/-- Members tell of one entry at most. -/
theorem ToldBy.unique_entry {e' : SchemaEntry} (h : e.ToldBy members) (h' : e'.ToldBy members) :
    e = e' := by
  have hflag : ∀ {found : Option Json} {a b : Bool}, found.getD (.bool false) = .bool a →
      found.getD (.bool false) = .bool b → a = b :=
    fun ha hb => Json.bool.inj (ha.symm.trans hb)
  have htext : ∀ {found : Option Json} {a b : String}, found = some (.str a) →
      found = some (.str b) → a = b :=
    fun ha hb => Json.str.inj (Option.some.inj (ha.symm.trans hb))
  obtain ⟨_, _, _, _, _, _, _, _, _, _, _, _, _⟩ := e
  obtain ⟨_, _, _, _, _, _, _, _, _, _, _, _, _⟩ := e'
  rw [mk.injEq]
  exact ⟨htext h.ident h'.ident, htext h.nameSpace h'.nameSpace, h.valueType.eq h'.valueType,
    h.cardinality.eq h'.cardinality, hflag h.isIdent h'.isIdent, hflag h.isFunction h'.isFunction,
    hflag h.isAttribute h'.isAttribute, hflag h.isUnique h'.isUnique,
    hflag h.isComponent h'.isComponent, h.unique.eq h'.unique, h.doc.eq h'.doc,
    h.function.eq h'.function, h.updatedAt.eq h'.updatedAt⟩

/-- Every field can be read from what tells of an entry. -/
theorem ToldBy.accepts (h : e.ToldBy members) : ∀ field ∈ record.fields, ∀ value,
    lookup field.name members = some value →
      field.isFilled record.blank = false ∧ field.Accepts value := by
  simp only [record, fields, List.forall_mem_cons, List.not_mem_nil, false_imp_iff, implies_true,
    and_true]
  exact ⟨fun _ hv => ⟨rfl, Json.RecordField.accepts_of (reads_text_of h.ident hv)⟩,
    fun _ hv => ⟨rfl, Json.RecordField.accepts_of (reads_text_of h.nameSpace hv)⟩,
    fun _ hv => ⟨rfl, Json.RecordField.accepts_of (h.valueType.reads hv)⟩,
    fun _ hv => ⟨rfl, Json.RecordField.accepts_of (h.cardinality.reads hv)⟩,
    fun _ hv => ⟨rfl, Json.RecordField.accepts_of (reads_flag_of h.isIdent hv)⟩,
    fun _ hv => ⟨rfl, Json.RecordField.accepts_of (reads_flag_of h.isFunction hv)⟩,
    fun _ hv => ⟨rfl, Json.RecordField.accepts_of (reads_flag_of h.isAttribute hv)⟩,
    fun _ hv => ⟨rfl, Json.RecordField.accepts_of (reads_flag_of h.isUnique hv)⟩,
    fun _ hv => ⟨rfl, Json.RecordField.accepts_of (reads_flag_of h.isComponent hv)⟩,
    fun _ hv => ⟨rfl, Json.RecordField.accepts_of (h.unique.reads hv)⟩,
    fun _ hv => ⟨rfl, Json.RecordField.accepts_of (h.doc.reads hv)⟩,
    fun _ hv => ⟨rfl, Json.RecordField.accepts_of (h.function.reads hv)⟩,
    fun _ hv => ⟨rfl, Json.RecordField.accepts_of (h.updatedAt.reads hv)⟩⟩

/-- An object is read as the entry that its members tell of. -/
theorem reads_obj_iff (hnames : (members.map (·.1)).Nodup) :
    Reads decode (.obj members) e ↔ e.ToldBy members := by
  rw [decode, Json.Record.reads_obj_iff, Json.Record.ofMembers_iff_fills]
  constructor
  · rintro ⟨final, hfills, hbuild⟩
    exact (filledBy_of_fills hnames hfills).toldBy hbuild
  · -- What is read is told by the members as well, and they tell of one entry only.
    intro h
    obtain ⟨final, hfills⟩ := apart_record.exists_fills rfl hnames h.accepts
    have hfilled := filledBy_of_fills hnames hfills
    -- The two members that must be there have filled their fields, so an entry is built.
    obtain ⟨ident, hident⟩ := hfilled.ident.exists_eq_some h.ident
    obtain ⟨nameSpace, hnameSpace⟩ := hfilled.nameSpace.exists_eq_some h.nameSpace
    obtain ⟨built, hbuild⟩ : ∃ built, record.build final = .ok built := by
      simp only [record, hident, hnameSpace]
      exact ⟨_, rfl⟩
    exact ⟨final, hfills, h.unique_entry (hfilled.toldBy hbuild) ▸ hbuild⟩

/-- An entry is read from an object, or from a list of two to thirteen values. -/
theorem takes_iff {j : Json} : record.Takes j ↔
    (∃ members, j = .obj members) ∨
      ∃ items, j = .arr items ∧ 2 ≤ items.length ∧ items.length ≤ 13 := by
  cases j with
  | obj members => simp [Json.Record.Takes]
  | arr items =>
    have hlength : record.Takes (.arr items) ↔ 1 < items.length ∧ items.length ≤ 13 :=
      Json.Record.takes_arr_iff (by simp [record, fields, Json.RecordField.of])
        (by simp [record, fields, Json.RecordField.of])
    rw [hlength]
    simp [Nat.succ_le_iff]
  | null | bool _ | num _ | str _ => simp [Json.Record.Takes]

/-- A value is read as an entry if it is an object or a list of the right length, and its members
tell of the entry. -/
theorem reads_iff {j : Json} (hj : j.Distinct) :
    Reads decode j e ↔ record.Takes j ∧ e.ToldBy (record.members j) := by
  rw [decode, apart_record.reads_iff]
  exact and_congr_right fun _ => reads_obj_iff (apart_record.nodup_members hj)

/-- A list of two strings is the name and the namespace of an entry. -/
example : Reads decode (.arr [.str ":a/b", .str "a"]) { ident := ":a/b", nameSpace := "a" } := rfl

/-! ### Written entries -/

/-- The members of the wire form. -/
def written (e : SchemaEntry) : List (String × Json) :=
  [("ident", .str e.ident), ("namespace", .str e.nameSpace)] ++
    memberIf "valueType" .str e.valueType ++ memberIf "cardinality" .str e.cardinality ++
    [("isIdent", .bool e.isIdent), ("isFunction", .bool e.isFunction),
     ("isAttribute", .bool e.isAttribute), ("isUnique", .bool e.isUnique),
     ("isComponent", .bool e.isComponent)] ++
    memberIf "unique" (fun u => .str u.name) e.unique ++ memberIf "doc" .str e.doc ++
    memberIf "function" .str e.function ++
    memberIf "updatedAt" (fun m => .str m.briefText) e.updatedAt

theorem toJson_eq (e : SchemaEntry) : e.toJson = .obj e.written := rfl

theorem map_fst_memberIf_sublist {α : Type} (name : String) (write : α → Json)
    (value : Option α) : ((memberIf name write value).map (·.1)).Sublist [name] := by
  cases value with
  | none => exact List.nil_sublist _
  | some a => exact List.Sublist.refl _

/-- An entry has each of its members once. -/
theorem nodup_written (e : SchemaEntry) : (e.written.map (·.1)).Nodup := by
  have hnames : (fields.map (·.name)).Nodup := apart_record.names
  refine hnames.sublist ?_
  simp only [written, List.map_append]
  -- The names of the fields fall into the same eight parts.
  change List.Sublist _ (["ident", "namespace"] ++ ["valueType"] ++ ["cardinality"] ++
    ["isIdent", "isFunction", "isAttribute", "isUnique", "isComponent"] ++ ["unique"] ++ ["doc"] ++
    ["function"] ++ ["updatedAt"])
  repeat' apply List.Sublist.append
  all_goals first
    | exact map_fst_memberIf_sublist _ _ _
    | exact List.Sublist.refl _

theorem lookup_memberIf {α : Type} (name other : String) (write : α → Json) (value : Option α) :
    lookup name (memberIf other write value) = if other = name then value.map write else none := by
  cases value with
  | none => simp [memberIf]
  | some a => simp [memberIf, Json.lookup_cons]

/-- What is written if it is there is read back as it was, if its parts are. -/
theorem memberRead_map_iff {α : Type} {decode : Decoder α} {write : α → Json}
    (hwrite : ∀ a, write a ≠ .null) {value : Option α} :
    MemberRead decode (value.map write) value ↔ ∀ a, value = some a → Reads decode (write a) a := by
  cases value with
  | none => simp [MemberRead]
  | some a => simp [MemberRead, Json.reads_optional_iff, hwrite]

/-- What is written of an entry tells of it if its moment is read back. -/
theorem toldBy_written {e : SchemaEntry}
    (h : MemberRead Moment.decode (e.updatedAt.map fun m => .str m.briefText) e.updatedAt) :
    e.ToldBy e.written := by
  have htext : ∀ value : Option String, MemberRead Json.text (value.map .str) value := by
    intro value
    simp [memberRead_map_iff]
  have hunique : MemberRead Uniqueness.decode (e.unique.map fun u => .str u.name) e.unique := by
    simp [memberRead_map_iff, Uniqueness.reads_iff]
  constructor
  all_goals
    simp only [written, Json.lookup_append, Json.lookup_cons, Json.lookup_nil, lookup_memberIf,
      String.reduceEq, if_true, if_false, Option.none_or, Option.or_none, Option.getD_some]
  all_goals first
    | exact htext _
    | exact hunique
    | exact h

/-- An entry is read back exactly if its moment is. -/
theorem reads_toJson_iff (e : SchemaEntry) : Reads decode e.toJson e ↔
    ∀ m, e.updatedAt = some m → Moment.ofText m.briefText = .ok m := by
  have hmoment : MemberRead Moment.decode (e.updatedAt.map fun m => .str m.briefText) e.updatedAt ↔
      ∀ m, e.updatedAt = some m → Moment.ofText m.briefText = .ok m := by
    simp [memberRead_map_iff, Moment.reads_iff]
  rw [toJson_eq, reads_obj_iff e.nodup_written, ← hmoment]
  constructor
  · intro h
    have hlast : lookup "updatedAt" e.written = e.updatedAt.map fun m => .str m.briefText := by
      simp only [written, Json.lookup_append, Json.lookup_cons, Json.lookup_nil, lookup_memberIf,
        String.reduceEq, if_true, if_false, Option.none_or]
    exact hlast ▸ h.updatedAt
  · exact toldBy_written

end SchemaEntry

/-! ### Shapes -/

namespace EntityShape

variable {e : EntityShape} {members : List (String × Json)}

/-- The members tell what the shape is. -/
structure ToldBy (members : List (String × Json)) (e : EntityShape) : Prop where
  uniqueAttribute : lookup "uniqueAttribute" members = some (.str e.uniqueAttribute)
  schema : lookup "schema" members = some e.schema

theorem apart_record : record.Apart :=
  Json.Record.apart_pair rfl (by decide) ⟨rfl, rfl⟩ (fun _ _ => rfl) fun _ _ => rfl

/-- Every field of the draft is filled from the member of its name. -/
structure Draft.FilledBy (members : List (String × Json)) (d : Draft) : Prop where
  uniqueAttribute : FilledFrom Json.text (lookup "uniqueAttribute" members) none d.uniqueAttribute
  schema : FilledFrom Json.anything (lookup "schema" members) none d.schema

theorem filledBy_of_fills (hnames : (members.map (·.1)).Nodup) {final : Draft}
    (h : record.Fills record.blank members final) : final.FilledBy members := by
  constructor
  all_goals
    refine h.filledFrom_blank (by rfl) (by exact fun _ _ => rfl) ?_ (by rfl) hnames
    intro other hother hne
    simp only [record, List.mem_cons, List.not_mem_nil, or_false] at hother
    rcases hother with rfl | rfl
    all_goals first
      | exact absurd rfl hne
      | exact Json.RecordField.keeps_of fun _ _ => rfl

/-- A shape is built from the two members, and not without them. -/
theorem build_eq_ok_iff {d : Draft} : record.build d = .ok e ↔
    d.uniqueAttribute = some e.uniqueAttribute ∧ d.schema = some e.schema := by
  obtain ⟨uniqueAttribute, schema⟩ := d
  obtain ⟨name, shape⟩ := e
  cases uniqueAttribute with
  | none => simp [record, Json.need, bind, Except.bind]
  | some text =>
    cases schema with
    | none => simp [record, Json.need, bind, Except.bind]
    | some shape => simp [record, Json.need, bind, Except.bind, pure, Except.pure]

/-- The shape that is built from the draft is the one that the members tell of. -/
theorem Draft.FilledBy.build_iff (hmembers : ∀ member ∈ members, member.2.Distinct) {d : Draft}
    (h : d.FilledBy members) : record.build d = .ok e ↔ e.ToldBy members := by
  rw [build_eq_ok_iff]
  constructor
  · rintro ⟨hname, hshape⟩
    have hnameRead := hname ▸ h.uniqueAttribute
    have hshapeRead := hshape ▸ h.schema
    obtain ⟨_, hfound, hread⟩ := Json.filledFrom_none_some_iff.mp hnameRead
    obtain ⟨shape, hfound', hread'⟩ := Json.filledFrom_none_some_iff.mp hshapeRead
    rw [Json.reads_text_iff] at hread
    rw [reads_anything_of_lookup hmembers hfound'] at hread'
    exact ⟨hread ▸ hfound, hread' ▸ hfound'⟩
  · intro htold
    have hname := h.uniqueAttribute
    have hshape := h.schema
    rw [htold.uniqueAttribute] at hname
    rw [htold.schema] at hshape
    obtain ⟨-, _, hread, hname⟩ := hname
    obtain ⟨-, _, hread', hshape⟩ := hshape
    rw [Json.reads_text_iff, Json.str.injEq] at hread
    rw [reads_anything_of_lookup hmembers htold.schema] at hread'
    exact ⟨hread ▸ hname, hread' ▸ hshape⟩

/-- An object is read as the shape that its members tell of. -/
theorem reads_obj_iff (hj : (Json.obj members).Distinct) :
    Reads decode (.obj members) e ↔ e.ToldBy members := by
  obtain ⟨hnames, hmembers⟩ := (Json.distinct_obj members).mp hj
  rw [decode, Json.Record.reads_obj_iff, Json.Record.ofMembers_iff_fills]
  constructor
  · rintro ⟨final, hfills, hbuild⟩
    exact ((filledBy_of_fills hnames hfills).build_iff hmembers).mp hbuild
  · intro h
    have haccepts : ∀ field ∈ record.fields, ∀ value, lookup field.name members = some value →
        field.isFilled record.blank = false ∧ field.Accepts value := by
      simp only [record, List.forall_mem_cons, List.not_mem_nil, false_imp_iff, implies_true,
        and_true]
      exact ⟨fun _ hv => ⟨rfl, Json.RecordField.accepts_of (reads_text_of h.uniqueAttribute hv)⟩,
        fun value _ => ⟨rfl, Json.RecordField.accepts_of (Json.reads_anything_iff.mpr rfl)⟩⟩
    obtain ⟨final, hfills⟩ := apart_record.exists_fills rfl hnames haccepts
    exact ⟨final, hfills, ((filledBy_of_fills hnames hfills).build_iff hmembers).mpr h⟩

/-- A shape is read from an object, or from a list of two values. -/
theorem takes_iff {j : Json} :
    record.Takes j ↔ (∃ members, j = .obj members) ∨ ∃ x y, j = .arr [x, y] := by
  cases j with
  | obj members => simp [Json.Record.Takes]
  | arr items =>
    have hlength : record.Takes (.arr items) ↔ 1 < items.length ∧ items.length ≤ 2 :=
      Json.Record.takes_arr_iff (by simp [record, Json.RecordField.of]) (by simp [record])
    have htwo : 1 < items.length ∧ items.length ≤ 2 ↔ items.length = 2 := by omega
    rw [hlength, htwo, List.length_eq_two]
    simp
  | null | bool _ | num _ | str _ => simp [Json.Record.Takes]

/-- A value is read as a shape if it is an object or a list of two values, and its members tell of
the shape. -/
theorem reads_iff {j : Json} (hj : j.Distinct) :
    Reads decode j e ↔ record.Takes j ∧ e.ToldBy (record.members j) := by
  rw [decode, apart_record.reads_iff]
  exact and_congr_right fun _ => reads_obj_iff (apart_record.distinct_members hj)

end EntityShape

end DatalogClient
