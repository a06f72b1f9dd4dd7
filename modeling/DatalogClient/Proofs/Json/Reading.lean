import DatalogClient.Json.Decode
import DatalogClient.Proofs.Json.Inside
import Mathlib.Data.List.Forall2
import Mathlib.Data.List.Nodup

/-!
# Reading values that were never text

A decoder that is given a JSON value, and not a text, succeeds or fails by the value alone. For
each way to build decoders this module says which values are read, and as what.

## Main definitions

* `Json.Reads` — a decoder reads a value as something
* `Json.FilledFrom` — what becomes of a field of a record by the member of its name
* `Json.MemberRead` — what is read of a member that may be absent

## Main results

* `Json.reads_inSomeForm_iff`, `Json.reads_text_iff`, `Json.reads_flag_iff`, `Json.reads_each_iff`,
  `Json.reads_optional_iff` — plain decoders
* `Json.reads_choice_str_iff`, `Json.reads_choice_obj_iff` — choices by their names
* `Json.Record.ofMembers_cons_iff` — what one member does to a record that is being read
* `Json.Record.reads_pair_iff`, `Json.Record.reads_list_iff` — records of two fields
* `Json.Record.invariant_of_decode` — what every field keeps true holds of a record that was read
-/

namespace DatalogClient

namespace Json

variable {α β δ : Type}

/-- The decoder reads the value as `a`. -/
def Reads (decode : Decoder α) (j : Json) (a : α) : Prop := decode (.ofJson j) = .ok a

/-! ### Lists of forms -/

/-- A reader of lists that goes on item by item reads each item. -/
theorem readList_eq_some_iff (read : α → Option β) (readList : List α → Option (List β))
    (nil : readList [] = some [])
    (cons : ∀ a rest, readList (a :: rest) =
      match read a with
      | none => none
      | some b => (readList rest).map (b :: ·))
    {items : List α} {values : List β} :
    readList items = some values ↔
      List.Forall₂ (fun item value => read item = some value) items values := by
  induction items generalizing values with
  | nil => rw [nil, List.forall₂_nil_left_iff, Option.some_inj, eq_comm]
  | cons item rest ih =>
    rw [cons, List.forall₂_cons_left_iff]
    cases hitem : read item with
    | none => simp
    | some b =>
      simp only [Option.map_eq_some_iff, Option.some.injEq]
      constructor
      · intro h
        obtain ⟨tail, htail, rfl⟩ := h
        have hrest := ih.mp htail
        exact ⟨b, tail, rfl, hrest, rfl⟩
      · intro h
        obtain ⟨_, tail, rfl, hrest, rfl⟩ := h
        have htail := ih.mpr hrest
        exact ⟨tail, htail, rfl⟩

/-- Where each value is read from one item only, so is a list of values. -/
theorem readList_eq_some_iff_eq_map (read : α → Option β) (readList : List α → Option (List β))
    (nil : readList [] = some [])
    (cons : ∀ a rest, readList (a :: rest) =
      match read a with
      | none => none
      | some b => (readList rest).map (b :: ·))
    {write : β → α} (hread : ∀ a b, read a = some b ↔ a = write b)
    {items : List α} {values : List β} :
    readList items = some values ↔ items = values.map write := by
  rw [readList_eq_some_iff read readList nil cons, ← List.forall₂_eq_eq_eq,
    List.forall₂_map_right_iff]
  simp only [hread]

/-- What was read was read from one of the items. -/
theorem exists_item_of_mem {R : α → β → Prop} {items : List α} {values : List β}
    (h : List.Forall₂ R items values) {value : β} (hvalue : value ∈ values) :
    ∃ item ∈ items, R item value := by
  induction h with
  | nil => simp at hvalue
  | cons hhead _ ih =>
    rcases List.mem_cons.mp hvalue with rfl | hvalue
    · exact ⟨_, List.mem_cons_self, hhead⟩
    · obtain ⟨item, hitem, hread⟩ := ih hvalue
      exact ⟨item, List.mem_cons_of_mem _ hitem, hread⟩

/-! ### Plain decoders -/

@[simp] theorem whole_ofJson (j : Json) : whole (.ofJson j) = .ok j := by
  simp [whole]

/-- A value of several forms is read by its forms. -/
@[simp] theorem reads_inSomeForm_iff {type : String} {read : Json → Option α} {j : Json} {a : α} :
    Reads (inSomeForm type read) j a ↔ read j = some a := by
  rw [Reads, inSomeForm, whole_ofJson]
  cases hread : read j <;> simp [hread]

@[simp] theorem reads_text_iff {j : Json} {s : String} : Reads text j s ↔ j = .str s := by
  cases j <;> simp [Reads, text, Located.ofJson]

@[simp] theorem reads_flag_iff {j : Json} {b : Bool} : Reads flag j b ↔ j = .bool b := by
  cases j <;> simp [Reads, flag, Located.ofJson]

@[simp] theorem reads_anything_iff {j read : Json} : Reads anything j read ↔ j.collapse = read := by
  simp [Reads, anything, Except.map]

theorem eachItem_ofJson_iff {decode : Decoder α} {n : Nat} {items : List Json} {values : List α} :
    eachItem decode (.ofJson n items) = .ok values ↔
      List.Forall₂ (Reads decode) items values := by
  induction items generalizing values with
  | nil =>
    rw [Items.ofJson, eachItem, List.forall₂_nil_left_iff, Except.ok.injEq, eq_comm]
  | cons item rest ih =>
    rw [Items.ofJson, eachItem, List.forall₂_cons_left_iff]
    cases hitem : decode (.ofJson item) with
    | error problem => simp [Reads, hitem]
    | ok a =>
      cases hrest : eachItem decode (.ofJson n rest) with
      | error problem =>
        -- One item that is not read spoils the list, however its other items are read.
        simp only [Except.map, reduceCtorEq, false_iff, not_exists, not_and]
        intro b tail _ htail
        have hok := ih.mpr htail
        rw [hrest] at hok
        simp at hok
      | ok tail =>
        rw [hrest] at ih
        simp only [Except.map, Except.ok.injEq, Reads, hitem]
        constructor
        · intro hvalues
          subst hvalues
          exact ⟨a, tail, rfl, ih.mp rfl, rfl⟩
        · intro h
          obtain ⟨b, others, rfl, hothers, rfl⟩ := h
          have htail : tail = others := Except.ok.inj (ih.mpr hothers)
          rw [htail]

/-- A list is read item by item. -/
theorem reads_each_iff {decode : Decoder α} {j : Json} {values : List α} :
    Reads (each decode) j values ↔
      ∃ items, j = .arr items ∧ List.Forall₂ (Reads decode) items values := by
  cases j <;> simp [Reads, each, Located.ofJson, eachItem_ofJson_iff]

/-- Written values are read back as a list when each of them is read back. -/
theorem reads_each_map_iff {decode : Decoder α} {write : α → Json} {values : List α} :
    Reads (each decode) (.arr (values.map write)) values ↔
      ∀ value ∈ values, Reads decode (write value) value := by
  rw [reads_each_iff]
  simp only [arr.injEq, exists_eq_left', List.forall₂_map_left_iff, List.forall₂_same]

/-- What every item that is read satisfies, every value of a list satisfies. -/
theorem forall_of_reads_each {decode : Decoder α} {p : Json → Prop} {q : α → Prop}
    (hitem : ∀ j a, j.Every p → Reads decode j a → q a) {j : Json} (hj : j.Every p)
    {values : List α} (h : Reads (each decode) j values) : ∀ value ∈ values, q value := by
  obtain ⟨items, rfl, hvalues⟩ := reads_each_iff.mp h
  intro value hvalue
  obtain ⟨item, hmem, hread⟩ := exists_item_of_mem hvalues hvalue
  exact hitem item value (((every_arr items).mp hj).2 item hmem) hread

/-- What may be absent is read from null as absent, and from anything else as what it is. -/
theorem reads_optional_iff {decode : Decoder α} {j : Json} {value : Option α} :
    Reads (optional decode) j value ↔
      (j = .null ∧ value = none) ∨ (j ≠ .null ∧ ∃ a, value = some a ∧ Reads decode j a) := by
  -- Null is the only value that is not handed on to the decoder.
  have hother : ∀ t : Located, (decode t).map some = .ok value ↔
      ∃ a, value = some a ∧ decode t = .ok a := by
    intro t
    cases decode t with
    | error problem => simp [Except.map]
    | ok a => simp [Except.map, eq_comm]
  cases j <;> simp [Reads, optional, Located.ofJson, hother, eq_comm]

/-- What every item that is read satisfies, every value of a list that may be absent satisfies. -/
theorem forall_of_reads_optional {decode : Decoder α} {p : Json → Prop} {q : α → Prop}
    (hitem : ∀ j a, j.Every p → Reads decode j a → q a) {j : Json} (hj : j.Every p)
    {values : Option (List α)} (h : Reads (optional (each decode)) j values) :
    ∀ value ∈ values.getD [], q value := by
  rcases reads_optional_iff.mp h with ⟨-, rfl⟩ | ⟨-, values, rfl, hvalues⟩
  · simp
  · exact forall_of_reads_each hitem hj hvalues

/-! ### Choices -/

section Choices

variable {choices : List (Choice α)}

/-- Where the names of the choices differ, the one of the name is picked. -/
theorem pick_eq_ok_iff (hnames : (choices.map Choice.name).Nodup)
    {given : String} {place : Option Place} {c : Choice α} :
    pick choices given place = .ok c ↔ c ∈ choices ∧ c.name = given := by
  rw [pick]
  constructor
  · intro h
    split at h
    next found hfound =>
      obtain rfl := Except.ok.inj h
      exact ⟨List.mem_of_find?_eq_some hfound, by simpa using List.find?_some hfound⟩
    next => cases h
  · rintro ⟨hc, rfl⟩
    split
    next found hfound =>
      have hname : found.name = c.name := by simpa using List.find?_some hfound
      rw [List.inj_on_of_nodup_map hnames (List.mem_of_find?_eq_some hfound) hc hname]
    next hnone => exact absurd (decide_eq_true rfl) (List.find?_eq_none.mp hnone c hc)

/-- A choice is read from its name, if that stands alone. -/
theorem reads_choice_str_iff (hnames : (choices.map Choice.name).Nodup)
    {given : String} {a : α} :
    Reads (choice choices) (.str given) a ↔ .plain given a ∈ choices := by
  have hread : Reads (choice choices) (.str given) a ↔
      ∃ c, pick choices given none = .ok c ∧ c.alone = .ok a := by
    rw [Reads, Located.ofJson, choice]
    cases pick choices given none <;> simp [bind, Except.bind]
  rw [hread]
  simp only [pick_eq_ok_iff hnames]
  constructor
  · rintro ⟨c, ⟨hc, rfl⟩, halone⟩
    cases c with
    | plain name value =>
      obtain rfl := Except.ok.inj halone
      exact hc
    | carrying name content => cases halone
  · intro h
    exact ⟨_, ⟨h, rfl⟩, rfl⟩

/-- A choice is read from an object of one member, which is of its name. -/
theorem reads_choice_obj_iff (hnames : (choices.map Choice.name).Nodup)
    {members : List (String × Json)} {a : α} :
    Reads (choice choices) (.obj members) a ↔
      ∃ c ∈ choices, ∃ value, members = [(c.name, value)] ∧ Reads c.beside value a := by
  match members with
  | [] => simp [Reads, choice, choiceMember, Located.ofJson, Members.ofJson]
  | [(given, value)] =>
    have hread : Reads (choice choices) (.obj [(given, value)]) a ↔
        ∃ c, pick choices given none = .ok c ∧ Reads c.beside value a := by
      rw [Reads, Located.ofJson, choice, Members.ofJson, Members.ofJson, choiceMember]
      cases hpick : pick choices given none with
      | error problem => simp
      | ok c => cases hread : c.beside (.ofJson value) <;> simp [Reads, hread]
    rw [hread]
    simp only [pick_eq_ok_iff hnames]
    constructor
    · rintro ⟨c, ⟨hc, rfl⟩, hbeside⟩
      exact ⟨c, hc, value, rfl, hbeside⟩
    · rintro ⟨c, hc, _, hmembers, hbeside⟩
      cases hmembers
      exact ⟨c, ⟨hc, rfl⟩, hbeside⟩
  | _ :: _ :: _ => simp [Reads, choice, choiceMember, Located.ofJson, Members.ofJson]

/-- Beside a plain name stands null. -/
theorem reads_beside_plain_iff {name : String} {value a : α} {j : Json} :
    Reads (Choice.plain name value).beside j a ↔ j = .null ∧ value = a := by
  cases j <;> simp [Reads, Choice.beside, nothing, Located.ofJson, Except.map]

end Choices

/-! ### Records -/

theorem Record.finish_eq_ok_iff {r : Record δ α} {draft : δ} {place : Option Place} {a : α} :
    r.finish draft place = .ok a ↔ r.build draft = .ok a := by
  rw [finish]
  cases r.build draft <;> simp

theorem Record.reads_obj_iff {r : Record δ α} {members : List (String × Json)} {a : α} :
    Reads r.decode (.obj members) a ↔ r.ofMembers r.blank (.ofJson members) = .ok a := Iff.rfl

@[simp] theorem Record.ofMembers_nil (r : Record δ α) (draft : δ) (a : α) :
    r.ofMembers draft (.ofJson []) = .ok a ↔ r.build draft = .ok a := by
  rw [Members.ofJson, ofMembers, finish_eq_ok_iff]

/-- The member of a field fills it, which may happen only once. -/
theorem Record.ofMembers_cons_iff {r : Record δ α} {field : RecordField δ} {name : String}
    {value : Json} {rest : List (String × Json)} {draft : δ} {a : α}
    (hfield : r.fields.find? (fun f => f.name = name) = some field) :
    r.ofMembers draft (.ofJson ((name, value) :: rest)) = .ok a ↔
      field.isFilled draft = false ∧ ∃ next, field.fill (.ofJson value) draft = .ok next ∧
        r.ofMembers next (.ofJson rest) = .ok a := by
  rw [Members.ofJson, ofMembers, hfield]
  cases hfilled : field.isFilled draft with
  | true => simp [hfilled]
  | false =>
    cases hfill : field.fill (.ofJson value) draft with
    | error problem => simp [hfilled, hfill]
    | ok next => simp [hfilled, hfill]

/-- A lenient record passes over the members of other names. -/
theorem Record.ofMembers_cons_other {r : Record δ α} {name : String} {value : Json}
    {rest : List (String × Json)} {draft : δ}
    (hfield : r.fields.find? (fun f => f.name = name) = none) (hlenient : r.strict = false) :
    r.ofMembers draft (.ofJson ((name, value) :: rest)) = r.ofMembers draft (.ofJson rest) := by
  rw [Members.ofJson, ofMembers, hfield]
  simp [hlenient]

/-- A strict record does not pass over anything. -/
theorem Record.strict_eq_false_of_ofMembers {r : Record δ α} {name : String} {value : Json}
    {rest : List (String × Json)} {draft : δ} {a : α}
    (hfield : r.fields.find? (fun f => f.name = name) = none)
    (h : r.ofMembers draft (.ofJson ((name, value) :: rest)) = .ok a) : r.strict = false := by
  rw [Members.ofJson, ofMembers, hfield] at h
  cases hstrict : r.strict with
  | true => simp [hstrict] at h
  | false => rfl

/-- A member either fills a field of its name or is passed over. -/
theorem Record.ofMembers_cons_cases {r : Record δ α} {name : String} {value : Json}
    {rest : List (String × Json)} {draft : δ} {a : α}
    (h : r.ofMembers draft (.ofJson ((name, value) :: rest)) = .ok a) :
    (∃ field ∈ r.fields, field.name = name ∧ ∃ next, field.fill (.ofJson value) draft = .ok next ∧
        r.ofMembers next (.ofJson rest) = .ok a) ∨
      r.ofMembers draft (.ofJson rest) = .ok a := by
  cases hfield : r.fields.find? (fun f => f.name = name) with
  | some field =>
    have hmem := List.mem_of_find?_eq_some hfield
    have hname : field.name = name := by simpa using List.find?_some hfield
    obtain ⟨-, next, hfill, hnext⟩ := (ofMembers_cons_iff hfield).mp h
    exact .inl ⟨field, hmem, hname, next, hfill, hnext⟩
  | none =>
    rw [ofMembers_cons_other hfield (strict_eq_false_of_ofMembers hfield h)] at h
    exact .inr h

/-- A field that is kept in one place is filled with what its decoder reads. -/
theorem RecordField.fill_of_iff {name : String} {required : Bool} {decode : Decoder β}
    {get : δ → Option β} {set : β → δ → δ} {value : Json} {draft next : δ} :
    (RecordField.of name required decode get set).fill (.ofJson value) draft = .ok next ↔
      ∃ b, Reads decode value b ∧ set b draft = next := by
  rw [RecordField.of]
  cases hread : decode (.ofJson value) <;> simp [Reads, hread, Except.map]

/-- The member of a field that is kept in one place is read into that place. -/
theorem Record.ofMembers_cons_of_iff {r : Record δ α} {name : String} {required : Bool}
    {decode : Decoder β} {get : δ → Option β} {set : β → δ → δ} {value : Json}
    {rest : List (String × Json)} {draft : δ} {a : α}
    (hfield : r.fields.find? (fun f => f.name = name) =
      some (.of name required decode get set)) :
    r.ofMembers draft (.ofJson ((name, value) :: rest)) = .ok a ↔
      get draft = none ∧ ∃ b, Reads decode value b ∧
        r.ofMembers (set b draft) (.ofJson rest) = .ok a := by
  rw [ofMembers_cons_iff hfield]
  have hblank : (RecordField.of name required decode get set).isFilled draft = false ↔
      get draft = none := by
    simp [RecordField.of]
  simp only [RecordField.fill_of_iff, hblank]
  constructor
  · intro h
    obtain ⟨hnone, _, ⟨b, hb, rfl⟩, hrest⟩ := h
    exact ⟨hnone, b, hb, hrest⟩
  · intro h
    obtain ⟨hnone, b, hb, hrest⟩ := h
    exact ⟨hnone, _, ⟨b, hb, rfl⟩, hrest⟩

/-- What becomes of a field by the member of its name: nothing if there is none, and otherwise it
is filled, which it was not before. -/
def FilledFrom (decode : Decoder β) (found : Option Json) (before after : Option β) : Prop :=
  match found with
  | none => after = before
  | some j => before = none ∧ ∃ b, Reads decode j b ∧ after = some b

@[simp] theorem filledFrom_none {decode : Decoder β} {before after : Option β} :
    FilledFrom decode none before after ↔ after = before := Iff.rfl

@[simp] theorem filledFrom_some {decode : Decoder β} {j : Json} {before after : Option β} :
    FilledFrom decode (some j) before after ↔
      before = none ∧ ∃ b, Reads decode j b ∧ after = some b := Iff.rfl

theorem filledFrom_none_some_iff {decode : Decoder β} {found : Option Json} {b : β} :
    FilledFrom decode found none (some b) ↔ ∃ j, found = some j ∧ Reads decode j b := by
  cases found with
  | none => simp
  | some j => simp

/-- Where there is a member, the field is filled. -/
theorem FilledFrom.exists_eq_some {decode : Decoder β} {found : Option Json}
    {before after : Option β} (h : FilledFrom decode found before after) {j : Json}
    (hfound : found = some j) : ∃ b, after = some b := by
  subst hfound
  obtain ⟨-, b, -, hafter⟩ := h
  exact ⟨b, hafter⟩

/-- What is read of a member that may be absent, or null. -/
def MemberRead (decode : Decoder α) (found : Option Json) (value : Option α) : Prop :=
  match found with
  | none => value = none
  | some j => Reads (optional decode) j value

theorem filledFrom_optional_iff {decode : Decoder α} {found : Option Json} {value : Option α} :
    (∃ after, FilledFrom (optional decode) found none after ∧ after.join = value) ↔
      MemberRead decode found value := by
  cases found with
  | none => simp [MemberRead, eq_comm]
  | some j => simp [MemberRead]

section Pair

variable {γ : Type} {r : Record δ α} {m n : String} {decodeFirst : Decoder β}
  {decodeSecond : Decoder γ} {getFirst : δ → Option β} {getSecond : δ → Option γ}
  {setFirst : β → δ → δ} {setSecond : γ → δ → δ}

/-- A record of two fields is read from an object of the two. -/
theorem Record.reads_pair_iff {x y : Json} {a : α}
    (hfields : r.fields = [.of m true decodeFirst getFirst setFirst,
      .of n true decodeSecond getSecond setSecond]) (hne : m ≠ n)
    (hfirst : getFirst r.blank = none) (hsecond : ∀ b, getSecond (setFirst b r.blank) = none) :
    Reads r.decode (.obj [(m, x), (n, y)]) a ↔
      ∃ b c, Reads decodeFirst x b ∧ Reads decodeSecond y c ∧
        r.build (setSecond c (setFirst b r.blank)) = .ok a := by
  have hfindFirst : r.fields.find? (fun field => field.name = m) =
      some (.of m true decodeFirst getFirst setFirst) := by
    rw [hfields]
    simp [RecordField.of]
  have hfindSecond : r.fields.find? (fun field => field.name = n) =
      some (.of n true decodeSecond getSecond setSecond) := by
    rw [hfields]
    simp [RecordField.of, hne]
  rw [reads_obj_iff, ofMembers_cons_of_iff hfindFirst]
  simp only [ofMembers_cons_of_iff hfindSecond, ofMembers_nil]
  constructor
  · intro h
    obtain ⟨-, b, hb, -, c, hc, hbuild⟩ := h
    exact ⟨b, c, hb, hc, hbuild⟩
  · intro h
    obtain ⟨b, c, hb, hc, hbuild⟩ := h
    exact ⟨hfirst, b, hb, hsecond b, c, hc, hbuild⟩

/-- A record of two fields is also read from the list of their values. -/
theorem Record.reads_list_iff {items : List Json} {a : α}
    (hfields : r.fields = [.of m true decodeFirst getFirst setFirst,
      .of n true decodeSecond getSecond setSecond]) :
    Reads r.decode (.arr items) a ↔
      ∃ x y, items = [x, y] ∧ ∃ b c, Reads decodeFirst x b ∧ Reads decodeSecond y c ∧
        r.build (setSecond c (setFirst b r.blank)) = .ok a := by
  have hread : Reads r.decode (.arr items) a ↔
      r.ofItems r.fields 0 r.blank (.ofJson items.length items) = .ok a := Iff.rfl
  rw [hread, hfields]
  -- Both fields are required, so a shorter list is missing one, and a longer one has no field for
  -- its third item.
  match items with
  | [] => simp [Items.ofJson, ofItems, RecordField.of]
  | [x] =>
    cases hx : decodeFirst (.ofJson x) with
    | error problem => simp [Items.ofJson, ofItems, RecordField.of, hx, Except.map]
    | ok b => simp [Items.ofJson, ofItems, RecordField.of, hx, Except.map]
  | [x, y] =>
    cases hx : decodeFirst (.ofJson x) with
    | error problem => simp [Items.ofJson, ofItems, RecordField.of, hx, Except.map, Reads]
    | ok b =>
      cases hy : decodeSecond (.ofJson y) with
      | error problem => simp [Items.ofJson, ofItems, RecordField.of, hx, hy, Except.map, Reads]
      | ok c =>
        simp [Items.ofJson, ofItems, RecordField.of, hx, hy, Except.map, Reads, finish_eq_ok_iff]
  | x :: y :: z :: rest =>
    cases hx : decodeFirst (.ofJson x) with
    | error problem => simp [Items.ofJson, ofItems, RecordField.of, hx, Except.map]
    | ok b =>
      cases hy : decodeSecond (.ofJson y) with
      | error problem => simp [Items.ofJson, ofItems, RecordField.of, hx, hy, Except.map]
      | ok c => simp [Items.ofJson, ofItems, RecordField.of, hx, hy, Except.map]

end Pair

section Invariant

variable {r : Record δ α} {p : Json → Prop} {q : δ → Prop}

/-- Members keep what every field keeps. -/
theorem Record.invariant_of_ofMembers
    (step : ∀ field ∈ r.fields, ∀ (value : Json) (draft next : δ), value.Every p → q draft →
      field.fill (.ofJson value) draft = .ok next → q next)
    {members : List (String × Json)} (hmembers : ∀ member ∈ members, member.2.Every p)
    {draft : δ} (hdraft : q draft) {a : α} (h : r.ofMembers draft (.ofJson members) = .ok a) :
    ∃ draft, q draft ∧ r.build draft = .ok a := by
  -- The draft is not the same for the members that remain, so the induction is over all drafts.
  induction members generalizing draft with
  | nil => exact ⟨draft, hdraft, (ofMembers_nil r draft a).mp h⟩
  | cons member rest ih =>
    obtain ⟨name, value⟩ := member
    have hvalue : value.Every p := hmembers _ List.mem_cons_self
    have hrest : ∀ member ∈ rest, member.2.Every p := fun m hm =>
      hmembers m (List.mem_cons_of_mem _ hm)
    rcases ofMembers_cons_cases h with ⟨field, hmem, -, next, hfill, hnext⟩ | hnext
    · have hkept := step field hmem value draft next hvalue hdraft hfill
      exact ih hrest hkept hnext
    · exact ih hrest hdraft hnext

/-- Items keep what every field keeps. -/
theorem Record.invariant_of_ofItems
    (step : ∀ field ∈ r.fields, ∀ (value : Json) (draft next : δ), value.Every p → q draft →
      field.fill (.ofJson value) draft = .ok next → q next)
    {fields : List (RecordField δ)} (hfields : fields ⊆ r.fields) {n length : Nat}
    {items : List Json} (hitems : ∀ item ∈ items, item.Every p) {draft : δ} (hdraft : q draft)
    {a : α} (h : r.ofItems fields n draft (.ofJson length items) = .ok a) :
    ∃ draft, q draft ∧ r.build draft = .ok a := by
  induction fields generalizing n items draft with
  | nil =>
    cases items with
    | nil =>
      have hbuild : r.build draft = .ok a :=
        finish_eq_ok_iff.mp (by simpa [Items.ofJson, ofItems] using h)
      exact ⟨draft, hdraft, hbuild⟩
    | cons item rest => simp [Items.ofJson, ofItems] at h
  | cons field fields ih =>
    have hrest : fields ⊆ r.fields := fun f hf => hfields (List.mem_cons_of_mem _ hf)
    cases items with
    | nil =>
      -- A list may end before fields that are not required.
      rw [Items.ofJson, ofItems] at h
      split at h
      · simp at h
      · exact ih hrest hitems hdraft (by simpa [Items.ofJson] using h)
    | cons item rest =>
      have hitem : item.Every p := hitems item List.mem_cons_self
      have hothers : ∀ item ∈ rest, item.Every p := fun i hi =>
        hitems i (List.mem_cons_of_mem _ hi)
      rw [Items.ofJson, ofItems] at h
      cases hfill : field.fill (.ofJson item) draft with
      | error problem => simp [hfill] at h
      | ok next =>
        rw [hfill] at h
        have hkept := step field (hfields List.mem_cons_self) item draft next hitem hdraft hfill
        exact ih hrest hothers hkept h

/-- What holds of the blank draft and is kept by every field that is filled from inside a value
holds of the draft of a record that was read from the value. -/
theorem Record.invariant_of_decode (hblank : q r.blank)
    (step : ∀ field ∈ r.fields, ∀ (value : Json) (draft next : δ), value.Every p → q draft →
      field.fill (.ofJson value) draft = .ok next → q next)
    {j : Json} (hj : j.Every p) {a : α} (h : Reads r.decode j a) :
    ∃ draft, q draft ∧ r.build draft = .ok a := by
  cases j with
  | obj members => exact invariant_of_ofMembers step ((every_obj members).mp hj).2 hblank h
  | arr items =>
    exact invariant_of_ofItems step (List.Subset.refl _) ((every_arr items).mp hj).2 hblank h
  | null => simp [Reads, decode, Located.ofJson] at h
  | bool b => simp [Reads, decode, Located.ofJson] at h
  | num n => simp [Reads, decode, Located.ofJson] at h
  | str s => simp [Reads, decode, Located.ofJson] at h

end Invariant

end Json

end DatalogClient
