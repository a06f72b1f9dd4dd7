import DatalogClient.Proofs.Json.Names
import DatalogClient.Proofs.Json.Reading
import Mathlib.Data.List.Pairwise

/-!
# Records by the names of their fields

A record is written as an object, in whatever order, or as the list of what its fields hold. Here
both are taken for members, so that what is read of a field can be told by its name.

## Main definitions

* `Json.Record.members` — the members that a value stands for
* `Json.Record.Apart` — the fields of a record do not get in each other's way
* `Json.Record.Fills` — what members do to a draft
* `Json.HasMembers` — the value is an object with members of given names

## Main results

* `Json.Record.Apart.reads_iff` — a record is read from its members, and from which lists
* `Json.Record.ofMembers_iff_fills`, `Json.Record.Apart.exists_fills` — which members lead to a
  draft
* `Json.Record.Apart.exists_lookup` — a field is read from the member of its name
* `Json.Record.Apart.hasMembers_iff` — unless it is a list, what is read as a record is an object
  that has a member for each field that is needed
-/

namespace DatalogClient

namespace Json

variable {α β δ : Type} {r : Record δ α}

/-- The members that a value stands for if it is read as a record. The items of a list go by the
names of the fields in order. -/
def Record.members (r : Record δ α) : Json → List (String × Json)
  | .obj members => members
  | .arr items => (r.fields.map (·.name)).zip items
  | .null => []
  | .bool _ => []
  | .num _ => []
  | .str _ => []

/-- To fill the one field does not fill the other. -/
def RecordField.Leaves (field other : RecordField δ) : Prop :=
  ∀ (value : Located) (draft next : δ), field.fill value draft = .ok next →
    other.isFilled next = other.isFilled draft

/-- To fill the field does not change what is kept in some place. -/
def RecordField.Keeps (field : RecordField δ) {γ : Type} (get : δ → Option γ) : Prop :=
  ∀ ⦃value : Located⦄ ⦃draft next : δ⦄, field.fill value draft = .ok next → get next = get draft

/-- The field is read from the value, whatever has been read before. -/
def RecordField.Accepts (field : RecordField δ) (value : Json) : Prop :=
  ∀ draft, ∃ next, field.fill (.ofJson value) draft = .ok next

/-- The fields of a record have names of their own, none is filled at first, and to fill one fills
no other. -/
structure Record.Apart (r : Record δ α) : Prop where
  names : (r.fields.map (·.name)).Nodup
  blank : ∀ field ∈ r.fields, field.isFilled r.blank = false
  leaves : r.fields.Pairwise fun field other => field.Leaves other ∧ other.Leaves field

section Field

variable {name : String} {required : Bool} {decode : Decoder β} {get : δ → Option β}
  {set : β → δ → δ}

/-- A field that is kept in one place is filled by putting something there. -/
theorem RecordField.exists_of_fill {value : Located} {draft next : δ}
    (h : (RecordField.of name required decode get set).fill value draft = .ok next) :
    ∃ b, next = set b draft := by
  simp only [of, Except.map] at h
  split at h
  · cases h
  · rename_i b _
    exact ⟨b, (Except.ok.inj h).symm⟩

/-- A field leaves what is kept in another place as it is. -/
theorem RecordField.keeps_of {γ : Type} {getOther : δ → Option γ}
    (h : ∀ b draft, getOther (set b draft) = getOther draft) :
    (RecordField.of name required decode get set).Keeps getOther := by
  intro value draft next hfill
  obtain ⟨b, rfl⟩ := exists_of_fill hfill
  exact h b draft

/-- A field that is kept in one place is read from what its decoder reads. -/
theorem RecordField.accepts_of {value : Json} {b : β} (h : Reads decode value b) :
    (RecordField.of name required decode get set).Accepts value :=
  fun draft => ⟨set b draft, fill_of_iff.mpr ⟨b, h, rfl⟩⟩

/-- Fields that are kept in different places leave each other as they are. -/
theorem RecordField.leaves_of {γ : Type} {other : String} {need : Bool} {decodeOther : Decoder γ}
    {getOther : δ → Option γ} {setOther : γ → δ → δ}
    (h : ∀ b draft, getOther (set b draft) = getOther draft) :
    (RecordField.of name required decode get set).Leaves
      (.of other need decodeOther getOther setOther) :=
  fun _ _ _ hfill => congrArg Option.isSome (keeps_of h hfill)

end Field

/-- The two fields of a record are apart if they have names and places of their own. -/
theorem Record.apart_pair {γ : Type} {m n : String} {first second : Bool}
    {decodeFirst : Decoder β} {decodeSecond : Decoder γ} {getFirst : δ → Option β}
    {getSecond : δ → Option γ} {setFirst : β → δ → δ} {setSecond : γ → δ → δ}
    (hfields : r.fields = [.of m first decodeFirst getFirst setFirst,
      .of n second decodeSecond getSecond setSecond]) (hne : m ≠ n)
    (hblank : getFirst r.blank = none ∧ getSecond r.blank = none)
    (hfirst : ∀ b draft, getSecond (setFirst b draft) = getSecond draft)
    (hsecond : ∀ b draft, getFirst (setSecond b draft) = getFirst draft) : r.Apart where
  names := by simpa [hfields, RecordField.of] using hne
  blank := by simpa [hfields, RecordField.of] using hblank
  leaves := by
    rw [hfields, List.pairwise_pair]
    exact ⟨RecordField.leaves_of hfirst, RecordField.leaves_of hsecond⟩

theorem map_fst_zip_sublist (names : List String) (items : List Json) :
    ((names.zip items).map (·.1)).Sublist names := by
  induction names generalizing items with
  | nil => simp
  | cons name names ih =>
    cases items with
    | nil => simp
    | cons item rest => exact (ih rest).cons_cons name

theorem Record.Apart.nodup_members (h : r.Apart) {j : Json} (hj : j.Distinct) :
    ((r.members j).map (·.1)).Nodup := by
  cases j with
  | obj members => exact ((distinct_obj members).mp hj).1
  | arr items => exact h.names.sublist (map_fst_zip_sublist _ items)
  | null | bool _ | num _ | str _ => exact List.nodup_nil

/-- What holds everywhere inside a value holds inside its members. -/
theorem Record.every_of_mem_members {p : Json → Prop} {j : Json} (hj : j.Every p)
    {member : String × Json} (h : member ∈ r.members j) : member.2.Every p := by
  cases j with
  | obj members => exact ((every_obj members).mp hj).2 member h
  | arr items => exact ((every_arr items).mp hj).2 _ (List.of_mem_zip h).2
  | null | bool _ | num _ | str _ => simp [members] at h

/-- The members of a value without repeated names are an object without repeated names. -/
theorem Record.Apart.distinct_members (h : r.Apart) {j : Json} (hj : j.Distinct) :
    (Json.obj (r.members j)).Distinct :=
  (distinct_obj _).mpr ⟨h.nodup_members hj, fun _ => every_of_mem_members hj⟩

theorem Record.every_lookup {p : Json → Prop} {j : Json} (hj : j.Every p) {name : String}
    {value : Json} (h : lookup name (r.members j) = some value) : value.Every p := by
  obtain ⟨member, hfind, rfl⟩ := Option.map_eq_some_iff.mp h
  exact every_of_mem_members hj (List.mem_of_find?_eq_some hfind)

/-- Fields of different names leave each other as they are. -/
theorem Record.Apart.leaves_of_ne (h : r.Apart) {field other : RecordField δ}
    (hfield : field ∈ r.fields) (hother : other ∈ r.fields) (hne : field.name ≠ other.name) :
    field.Leaves other := by
  have hne' : field ≠ other := fun hsame => hne (congrArg _ hsame)
  have hsymm : Std.Symm fun field other : RecordField δ =>
      field.Leaves other ∧ other.Leaves field := ⟨fun _ _ => And.symm⟩
  exact (List.Pairwise.forall h.leaves hfield hother hne').1

theorem Record.Apart.find?_name (h : r.Apart) {field : RecordField δ} (hfield : field ∈ r.fields) :
    r.fields.find? (fun f => f.name = field.name) = some field := by
  have hnames := h.names
  generalize r.fields = fields at hfield hnames
  induction fields with
  | nil => simp at hfield
  | cons first rest ih =>
    rw [List.map_cons, List.nodup_cons] at hnames
    rcases List.mem_cons.mp hfield with rfl | hrest
    · simp
    · have hne : first.name ≠ field.name := by
        intro hsame
        rw [hsame] at hnames
        exact hnames.1 (List.mem_map_of_mem hrest)
      rw [List.find?_cons_of_neg (by simpa using hne)]
      exact ih hrest hnames.2

/-- Items fill the fields that are left as members of their names do. There may not be more items
than fields, and fields that the list does not reach are not required. -/
theorem Record.Apart.ofItems_iff (h : r.Apart) {fields : List (RecordField δ)}
    (hfields : fields.Sublist r.fields) {n length : Nat} {items : List Json} {draft : δ}
    (hblank : ∀ field ∈ fields, field.isFilled draft = false) {a : α} :
    r.ofItems fields n draft (.ofJson length items) = .ok a ↔
      items.length ≤ fields.length ∧ (∀ field ∈ fields.drop items.length, field.required = false) ∧
        r.ofMembers draft (.ofJson ((fields.map (·.name)).zip items)) = .ok a := by
  induction fields generalizing n items draft with
  | nil =>
    cases items with
    | nil => simp [Items.ofJson, ofItems, finish_eq_ok_iff]
    | cons item rest => simp [Items.ofJson, ofItems]
  | cons field fields ih =>
    have hrest := (List.sublist_cons_self field fields).trans hfields
    have hothers : ∀ f ∈ fields, f.isFilled draft = false := fun f hf =>
      hblank f (List.mem_cons_of_mem _ hf)
    cases items with
    | nil =>
      have hclose : r.ofItems fields (n + 1) draft (.ofJson length []) = .ok a ↔ _ :=
        ih hrest hothers
      rw [Items.ofJson] at hclose ⊢
      rw [ofItems]
      cases hrequired : field.required with
      | true => simp [hrequired]
      | false => simpa [hrequired] using hclose
    | cons item rest =>
      have hmem := hfields.subset List.mem_cons_self
      rw [Items.ofJson, ofItems, List.map_cons, List.zip_cons_cons,
        ofMembers_cons_iff (h.find?_name hmem), List.length_cons, List.length_cons,
        List.drop_succ_cons, Nat.succ_le_succ_iff]
      cases hfill : field.fill (.ofJson item) draft with
      | error problem => simp
      | ok next =>
        -- The fields that are left were not filled before, and are not filled with this one.
        have hleaves := (List.pairwise_cons.mp (h.leaves.sublist hfields)).1
        have hnext : ∀ other ∈ fields, other.isFilled next = false := by
          intro other hother
          rw [(hleaves other hother).1 _ _ _ hfill]
          exact hothers other hother
        simp only [ih hrest hnext, hblank field List.mem_cons_self, true_and, Except.ok.injEq,
          exists_eq_left']

/-- The value is an object, or a list that is not too long and leaves out only fields that are not
required. -/
def Record.Takes (r : Record δ α) : Json → Prop
  | .obj _ => True
  | .arr items => items.length ≤ r.fields.length ∧
      ∀ field ∈ r.fields.drop items.length, field.required = false
  | .null => False
  | .bool _ => False
  | .num _ => False
  | .str _ => False

/-- Where no field behind the last required one is required, a list must reach that one. -/
theorem Record.takes_arr_iff {last : Nat}
    (hrequired : ∃ field ∈ r.fields.drop last, field.required = true)
    (hoptional : ∀ field ∈ r.fields.drop (last + 1), field.required = false) {items : List Json} :
    r.Takes (.arr items) ↔ last < items.length ∧ items.length ≤ r.fields.length := by
  rw [Takes, and_comm]
  refine and_congr_left fun _ => ?_
  constructor
  · intro h
    by_contra hshort
    obtain ⟨field, hfield, htrue⟩ := hrequired
    rw [h field (List.drop_subset_drop_left r.fields (Nat.le_of_not_lt hshort) hfield)] at htrue
    cases htrue
  · intro h field hfield
    exact hoptional field (List.drop_subset_drop_left r.fields h hfield)

/-- A record is read from the object of its members, or from a list that may stand for it. -/
theorem Record.Apart.reads_iff (h : r.Apart) {j : Json} {a : α} :
    Reads r.decode j a ↔ r.Takes j ∧ Reads r.decode (.obj (r.members j)) a := by
  cases j with
  | obj members => exact ⟨fun hread => ⟨trivial, hread⟩, And.right⟩
  | arr items =>
    rw [Takes, and_assoc]
    exact h.ofItems_iff (List.Sublist.refl _) h.blank
  | null | bool _ | num _ | str _ => simp [Reads, decode, Located.ofJson, Takes]

/-- A record that was read is read from the object of its members as well. -/
theorem Record.Apart.reads_members (h : r.Apart) {j : Json} {a : α} (hread : Reads r.decode j a) :
    Reads r.decode (.obj (r.members j)) a :=
  (h.reads_iff.mp hread).2

/-! ### What members do to a draft -/

/-- The members lead from one draft to another: each fills the field of its name, which may happen
only once, or is passed over if there is no such field. -/
inductive Record.Fills (r : Record δ α) : δ → List (String × Json) → δ → Prop
  | nil (draft : δ) : r.Fills draft [] draft
  | field {field : RecordField δ} {name : String} {value : Json} {rest : List (String × Json)}
      {draft next final : δ} (hfield : r.fields.find? (fun f => f.name = name) = some field)
      (hblank : field.isFilled draft = false) (hfill : field.fill (.ofJson value) draft = .ok next)
      (hrest : r.Fills next rest final) : r.Fills draft ((name, value) :: rest) final
  | other {name : String} {value : Json} {rest : List (String × Json)} {draft final : δ}
      (hother : r.fields.find? (fun f => f.name = name) = none) (hlenient : r.strict = false)
      (hrest : r.Fills draft rest final) : r.Fills draft ((name, value) :: rest) final

/-- A record is built from the draft that its members lead to. -/
theorem Record.ofMembers_iff_fills {members : List (String × Json)} {draft : δ} {a : α} :
    r.ofMembers draft (.ofJson members) = .ok a ↔
      ∃ final, r.Fills draft members final ∧ r.build final = .ok a := by
  constructor
  · intro h
    induction members generalizing draft with
    | nil => exact ⟨draft, .nil draft, (ofMembers_nil r draft a).mp h⟩
    | cons member rest ih =>
      obtain ⟨name, value⟩ := member
      cases hfield : r.fields.find? (fun f => f.name = name) with
      | some field =>
        obtain ⟨hblank, next, hfill, hrest⟩ := (ofMembers_cons_iff hfield).mp h
        obtain ⟨final, hfills, hbuild⟩ := ih hrest
        exact ⟨final, .field hfield hblank hfill hfills, hbuild⟩
      | none =>
        have hlenient := strict_eq_false_of_ofMembers hfield h
        rw [ofMembers_cons_other hfield hlenient] at h
        obtain ⟨final, hfills, hbuild⟩ := ih h
        exact ⟨final, .other hfield hlenient hfills, hbuild⟩
  · rintro ⟨final, hfills, hbuild⟩
    induction hfills with
    | nil draft => exact (ofMembers_nil r draft a).mpr hbuild
    | field hfield hblank hfill _ ih =>
      exact (ofMembers_cons_iff hfield).mpr ⟨hblank, _, hfill, ih hbuild⟩
    | other hother hlenient _ ih => rw [ofMembers_cons_other hother hlenient, ih hbuild]

/-- Members of different names lead to a draft if the fields of their names can be read from
them. -/
theorem Record.Apart.exists_fills (h : r.Apart) (hlenient : r.strict = false)
    {members : List (String × Json)} (hnames : (members.map (·.1)).Nodup) {draft : δ}
    (hfields : ∀ field ∈ r.fields, ∀ value, lookup field.name members = some value →
      field.isFilled draft = false ∧ field.Accepts value) :
    ∃ final, r.Fills draft members final := by
  induction members generalizing draft with
  | nil => exact ⟨draft, .nil draft⟩
  | cons member rest ih =>
    obtain ⟨name, value⟩ := member
    rw [List.map_cons, List.nodup_cons, ← lookup_eq_none_iff] at hnames
    obtain ⟨hname, hrest⟩ := hnames
    -- A name that is looked up among the other members is not that of this one.
    have hothers : ∀ {n : String} {v : Json}, lookup n rest = some v →
        name ≠ n ∧ lookup n ((name, value) :: rest) = some v := by
      intro n v hv
      have hne : name ≠ n := by
        rintro rfl
        rw [hname] at hv
        cases hv
      exact ⟨hne, by rw [lookup_cons, if_neg hne, hv]⟩
    cases hfield : r.fields.find? (fun f => f.name = name) with
    | none =>
      obtain ⟨final, hfinal⟩ := ih hrest fun field hmem v hv =>
        hfields field hmem v (hothers hv).2
      exact ⟨final, .other hfield hlenient hfinal⟩
    | some field =>
      have hmem := List.mem_of_find?_eq_some hfield
      obtain rfl : field.name = name := by simpa using List.find?_some hfield
      obtain ⟨hblank, haccepts⟩ := hfields field hmem value (by rw [lookup_cons, if_pos rfl])
      obtain ⟨next, hfill⟩ := haccepts draft
      have hnext : ∀ other ∈ r.fields, ∀ v, lookup other.name rest = some v →
          other.isFilled next = false ∧ other.Accepts v := by
        intro other hother v hv
        obtain ⟨hne, hlookup⟩ := hothers hv
        obtain ⟨hblank', haccepts'⟩ := hfields other hother v hlookup
        exact ⟨(h.leaves_of_ne hmem hother hne _ _ _ hfill).trans hblank', haccepts'⟩
      obtain ⟨final, hfinal⟩ := ih hrest hnext
      exact ⟨final, .field hfield hblank hfill hfinal⟩

section Field

variable {name : String} {required : Bool} {decode : Decoder β} {get : δ → Option β}
  {set : β → δ → δ}

/-- A field that no other one changes is filled from the member of its name. -/
theorem Record.Fills.filledFrom
    (hfield : r.fields.find? (fun f => f.name = name) = some (.of name required decode get set))
    (hget : ∀ b draft, get (set b draft) = some b)
    (hothers : ∀ other ∈ r.fields, other.name ≠ name → other.Keeps get)
    {members : List (String × Json)} (hnames : (members.map (·.1)).Nodup) {draft final : δ}
    (h : r.Fills draft members final) :
    FilledFrom decode (lookup name members) (get draft) (get final) := by
  -- The draft changes with every member, and the field only with the one of its name.
  induction h with
  | nil draft => exact rfl
  | @field other n value rest draft next final hother hblank hfill _ ih =>
    rw [List.map_cons, List.nodup_cons, ← lookup_eq_none_iff] at hnames
    obtain ⟨hname, hrest⟩ := hnames
    have hfinal := ih hrest
    by_cases hsame : n = name
    · subst hsame
      obtain rfl := Option.some.inj (hother.symm.trans hfield)
      obtain ⟨b, hb, rfl⟩ := RecordField.fill_of_iff.mp hfill
      rw [hname, filledFrom_none, hget] at hfinal
      rw [lookup_cons, if_pos rfl]
      exact ⟨by simpa [RecordField.of] using hblank, b, hb, hfinal⟩
    · have hmem := List.mem_of_find?_eq_some hother
      have hne : other.name ≠ name := by
        have hn : other.name = n := by simpa using List.find?_some hother
        rwa [hn]
      rw [lookup_cons, if_neg hsame, ← hothers other hmem hne hfill]
      exact hfinal
  | @other n value rest draft final hother _ _ ih =>
    rw [List.map_cons, List.nodup_cons] at hnames
    have hsame : n ≠ name := by
      rintro rfl
      cases hother.symm.trans hfield
    rw [lookup_cons, if_neg hsame]
    exact ih hnames.2

/-- At the end such a field holds what is read from the member of its name, if there is one. -/
theorem Record.Fills.filledFrom_blank
    (hfield : r.fields.find? (fun f => f.name = name) = some (.of name required decode get set))
    (hget : ∀ b draft, get (set b draft) = some b)
    (hothers : ∀ other ∈ r.fields, other.name ≠ name → other.Keeps get)
    (hblank : get r.blank = none) {members : List (String × Json)}
    (hnames : (members.map (·.1)).Nodup) {final : δ} (h : r.Fills r.blank members final) :
    FilledFrom decode (lookup name members) none (get final) :=
  hblank ▸ h.filledFrom hfield hget hothers hnames

/-- A field that a record cannot do without is read from the member of its name. -/
theorem Record.Apart.exists_lookup (hapart : r.Apart) (name : String)
    (hfield : r.fields.find? (fun f => f.name = name) = some (.of name required decode get set))
    (hget : ∀ b draft, get (set b draft) = some b)
    (hothers : ∀ other ∈ r.fields, other.name ≠ name → other.Keeps get)
    (hblank : get r.blank = none) (hneed : ∀ draft a, r.build draft = .ok a → get draft ≠ none)
    {j : Json} (hj : j.Distinct) {a : α} (h : Reads r.decode j a) :
    ∃ value b final, lookup name (r.members j) = some value ∧ Reads decode value b ∧
      r.build final = .ok a ∧ get final = some b := by
  obtain ⟨final, hfills, hbuild⟩ := ofMembers_iff_fills.mp (hapart.reads_members h)
  have hfilled := hfills.filledFrom_blank hfield hget hothers hblank (hapart.nodup_members hj)
  cases hfound : lookup name (r.members j) with
  | none =>
    rw [hfound] at hfilled
    exact absurd hfilled (hneed final a hbuild)
  | some value =>
    rw [hfound] at hfilled
    obtain ⟨-, b, hread, hfinal⟩ := hfilled
    exact ⟨value, b, final, rfl, hread, hbuild, hfinal⟩

end Field

/-! ### Objects that have what is needed -/

/-- The value is a list. -/
def IsList (j : Json) : Prop := ∃ items, j = .arr items

/-- The value is an object that has a member of each of the names. -/
def HasMembers (names : List String) (j : Json) : Prop :=
  ∃ members, j = .obj members ∧ ∀ name ∈ names, ∃ value, lookup name members = some value

/-- There is no record without the field of the name. -/
def Record.Needs (r : Record δ α) (name : String) : Prop :=
  ∃ field ∈ r.fields, field.name = name ∧
    ∀ draft a, r.build draft = .ok a → field.isFilled draft = true

/-- A record of two fields that is not built without both of them needs both. -/
theorem Record.needs_pair {β γ : Type} {m n : String} {decodeFirst : Decoder β}
    {decodeSecond : Decoder γ} {getFirst : δ → Option β} {getSecond : δ → Option γ}
    {setFirst : β → δ → δ} {setSecond : γ → δ → δ}
    (hfields : r.fields = [.of m true decodeFirst getFirst setFirst,
      .of n true decodeSecond getSecond setSecond])
    (hbuild : ∀ draft a, r.build draft = .ok a →
      (getFirst draft).isSome = true ∧ (getSecond draft).isSome = true) :
    ∀ name ∈ [m, n], r.Needs name := by
  rw [List.forall_mem_cons, List.forall_mem_singleton]
  constructor
  · exact ⟨.of m true decodeFirst getFirst setFirst, by simp [hfields], rfl,
      fun draft a h => (hbuild draft a h).1⟩
  · exact ⟨.of n true decodeSecond getSecond setSecond, by simp [hfields], rfl,
      fun draft a h => (hbuild draft a h).2⟩

/-- A field that is filled at the end was filled before or has a member of its name. -/
theorem Record.Apart.isFilled_or_exists (h : r.Apart) {members : List (String × Json)}
    {draft final : δ} (hfills : r.Fills draft members final) {field : RecordField δ}
    (hfield : field ∈ r.fields) (hfilled : field.isFilled final = true) :
    field.isFilled draft = true ∨ ∃ value, lookup field.name members = some value := by
  induction hfills with
  | nil draft => exact .inl hfilled
  | @field other n value rest draft next final hother _ hfill _ ih =>
    -- A member leaves all fields as they are, apart from the one of its name.
    have hmem := List.mem_of_find?_eq_some hother
    obtain rfl : other.name = n := by simpa using List.find?_some hother
    rw [lookup_cons]
    split_ifs with hname
    · exact .inr ⟨value, rfl⟩
    · rw [← h.leaves_of_ne hmem hfield hname _ _ _ hfill]
      exact ih hfilled
  | @other n value rest draft final _ _ _ ih =>
    rw [lookup_cons]
    split_ifs with hname
    · exact .inr ⟨value, rfl⟩
    · exact ih hfilled

/-- What is read as a record is an object or a list. -/
theorem Record.isList_or_exists_of_reads {j : Json} {a : α} (h : Reads r.decode j a) :
    j.IsList ∨ ∃ members, j = .obj members := by
  cases j with
  | arr items => exact .inl ⟨items, rfl⟩
  | obj members => exact .inr ⟨members, rfl⟩
  | null | bool _ | num _ | str _ => simp [Reads, decode, Located.ofJson] at h

/-- What is read as a record is either a list or an object that has what the record needs. -/
theorem Record.Apart.hasMembers_iff (h : r.Apart) {names : List String}
    (hneeds : ∀ name ∈ names, r.Needs name) {j : Json} {a : α} (hread : Reads r.decode j a) :
    HasMembers names j ↔ ¬ j.IsList := by
  constructor
  · rintro ⟨members, rfl, -⟩ ⟨items, hitems⟩
    cases hitems
  · intro hlist
    obtain ⟨members, rfl⟩ := (isList_or_exists_of_reads hread).resolve_left hlist
    refine ⟨members, rfl, fun name hname => ?_⟩
    obtain ⟨field, hfield, rfl, hneed⟩ := hneeds name hname
    obtain ⟨final, hfills, hbuild⟩ := ofMembers_iff_fills.mp hread
    refine (h.isFilled_or_exists hfills hfield (hneed final a hbuild)).resolve_left ?_
    rw [h.blank field hfield]
    exact Bool.false_ne_true

end Json

end DatalogClient
