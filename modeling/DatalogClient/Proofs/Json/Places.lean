import DatalogClient.Json.Decode
import DatalogClient.Proofs.Json.Inside

/-!
# Trees and places

A tree without faults shows one value, and so does every tree that differs from it in its places
only. A decoder that is indifferent to places reads the same from all of them: places tell where
problems are, and not whether there are any.

## Main definitions

* `Located.Shows`, `Items.Shows`, `Members.Shows` — the tree is that of a value, at some places
* `Decoder.Indifferent` — the decoder reads the same from all trees of a value

## Main results

* `Located.shows_ofJson`, `Located.Shows.json_eq` — the tree without places, and the value of a tree
* `Json.indifferent_each`, `Json.indifferent_optional`, `Json.Record.indifferent_decode` and others
  — the ways to build decoders keep indifference
-/

namespace DatalogClient

/-! ### Trees of a value -/

mutual

/-- The tree is that of the value, with no fault in it. -/
def Located.Shows : Located → Json → Prop
  | .scalar value _ _, j => value.json = j
  | .list _ items, .arr values => items.Shows values
  | .object _ members, .obj entries => members.Shows entries
  | _, _ => False

/-- The items are those of the list. -/
def Items.Shows : Items → List Json → Prop
  | .close _, [] => True
  | .item _ value _ rest, j :: values => value.Shows j ∧ rest.Shows values
  | _, _ => False

/-- The members are those of the object, and a reader may pass over any of them. -/
def Members.Shows : Members → List (String × Json) → Prop
  | .close _, [] => True
  | .member name _ _ value unskippable _ rest, entry :: entries =>
    name = entry.1 ∧ value.Shows entry.2 ∧ unskippable = none ∧ rest.Shows entries
  | _, _ => False

end

mutual

/-- A value without places shows itself. -/
theorem Located.shows_ofJson (j : Json) : (Located.ofJson j).Shows j := by
  cases j with
  | arr items => exact Items.shows_ofJson items.length items
  | obj members => exact Members.shows_ofJson members
  | _ => exact rfl

theorem Items.shows_ofJson (n : Nat) (items : List Json) : (Items.ofJson n items).Shows items := by
  cases items with
  | nil => exact True.intro
  | cons item rest => exact ⟨Located.shows_ofJson item, Items.shows_ofJson n rest⟩

theorem Members.shows_ofJson (members : List (String × Json)) :
    (Members.ofJson members).Shows members := by
  cases members with
  | nil => exact True.intro
  | cons entry rest =>
    exact ⟨rfl, Located.shows_ofJson entry.2, rfl, Members.shows_ofJson rest⟩

end

theorem Items.shows_nil_iff {items : Items} : items.Shows [] ↔ ∃ stop, items = .close stop := by
  cases items <;> simp [Items.Shows]

theorem Items.shows_cons_iff {items : Items} {j : Json} {values : List Json} :
    items.Shows (j :: values) ↔ ∃ surplus value leave rest,
      items = .item surplus value leave rest ∧ value.Shows j ∧ rest.Shows values := by
  cases items with
  | item surplus value leave rest =>
    constructor
    · rintro ⟨hvalue, hrest⟩
      exact ⟨_, _, _, _, rfl, hvalue, hrest⟩
    · rintro ⟨_, _, _, _, h, hvalue, hrest⟩
      cases h
      exact ⟨hvalue, hrest⟩
  | close _ | broken _ _ => simp [Items.Shows]

theorem Members.shows_nil_iff {members : Members} :
    members.Shows [] ↔ ∃ stop, members = .close stop := by
  cases members <;> simp [Members.Shows]

theorem Members.shows_cons_iff {members : Members} {entry : String × Json}
    {entries : List (String × Json)} :
    members.Shows (entry :: entries) ↔ ∃ nameStop nameLeave value leave rest,
      members = .member entry.1 nameStop nameLeave value none leave rest ∧
        value.Shows entry.2 ∧ rest.Shows entries := by
  cases members with
  | member name nameStop nameLeave value unskippable leave rest =>
    constructor
    · rintro ⟨rfl, hvalue, rfl, hrest⟩
      exact ⟨_, _, _, _, _, rfl, hvalue, hrest⟩
    · rintro ⟨_, _, _, _, _, h, hvalue, hrest⟩
      cases h
      exact ⟨rfl, hvalue, rfl, hrest⟩
  | close _ | broken _ _ => simp [Members.Shows]

theorem Scalar.json_inj {v w : Scalar} (h : v.json = w.json) : v = w := by
  cases v <;> cases w <;> simp_all [Scalar.json]

theorem Located.shows_list_iff {start : Option Place} {items : Items} {j : Json} :
    (Located.list start items).Shows j ↔ ∃ values, j = .arr values ∧ items.Shows values := by
  cases j <;> simp [Located.Shows]

theorem Located.shows_object_iff {start : Option Place} {members : Members} {j : Json} :
    (Located.object start members).Shows j ↔
      ∃ entries, j = .obj entries ∧ members.Shows entries := by
  cases j <;> simp [Located.Shows]

theorem Scalar.json_ne_arr (v : Scalar) (values : List Json) : v.json ≠ .arr values := by
  cases v <;> exact nofun

theorem Scalar.json_ne_obj (v : Scalar) (entries : List (String × Json)) :
    v.json ≠ .obj entries := by
  cases v <;> exact nofun

mutual

/-- A tree has the value that it shows. -/
theorem Located.Shows.json_eq {t : Located} {j : Json} (h : t.Shows j) : t.json = .ok j := by
  cases t with
  | broken _ _ => exact h.elim
  | scalar value _ _ => exact congrArg Except.ok h
  | list _ items =>
    obtain ⟨values, rfl, hitems⟩ := Located.shows_list_iff.mp h
    simp only [Located.json, Items.Shows.json_eq hitems, Except.map]
  | object _ members =>
    obtain ⟨entries, rfl, hmembers⟩ := Located.shows_object_iff.mp h
    simp only [Located.json, Members.Shows.json_eq hmembers, Except.map]

theorem Items.Shows.json_eq {items : Items} {values : List Json} (h : items.Shows values) :
    items.json = .ok values := by
  cases values with
  | nil =>
    obtain ⟨_, rfl⟩ := Items.shows_nil_iff.mp h
    rfl
  | cons j values =>
    obtain ⟨_, value, _, rest, rfl, hvalue, hrest⟩ := Items.shows_cons_iff.mp h
    simp only [Items.json, Located.Shows.json_eq hvalue, Items.Shows.json_eq hrest, Except.map]

theorem Members.Shows.json_eq {members : Members} {entries : List (String × Json)}
    (h : members.Shows entries) : members.json = .ok entries := by
  cases entries with
  | nil =>
    obtain ⟨_, rfl⟩ := Members.shows_nil_iff.mp h
    rfl
  | cons entry entries =>
    obtain ⟨_, _, value, _, rest, rfl, hvalue, hrest⟩ := Members.shows_cons_iff.mp h
    simp only [Members.json, Located.Shows.json_eq hvalue, Members.Shows.json_eq hrest, Except.map]

end

/-! ### Two trees of one value -/

/-- Two trees of one value are built alike. -/
theorem Located.Shows.alike {t t' : Located} {j : Json} (h : t.Shows j) (h' : t'.Shows j) :
    (∃ value start stop start' stop',
        t = .scalar value start stop ∧ t' = .scalar value start' stop') ∨
      (∃ start start' items items' values, t = .list start items ∧ t' = .list start' items' ∧
        items.Shows values ∧ items'.Shows values) ∨
      ∃ start start' members members' entries, t = .object start members ∧
        t' = .object start' members' ∧ members.Shows entries ∧ members'.Shows entries := by
  cases t with
  | broken _ _ => exact h.elim
  | scalar v _ _ =>
    obtain rfl : v.json = j := h
    cases t' with
    | broken _ _ => exact h'.elim
    | scalar w _ _ =>
      obtain rfl := Scalar.json_inj h'
      exact .inl ⟨w, _, _, _, _, rfl, rfl⟩
    | list _ _ =>
      obtain ⟨values, hvalues, -⟩ := shows_list_iff.mp h'
      exact absurd hvalues (v.json_ne_arr values)
    | object _ _ =>
      obtain ⟨entries, hentries, -⟩ := shows_object_iff.mp h'
      exact absurd hentries (v.json_ne_obj entries)
  | list _ items =>
    obtain ⟨values, rfl, hitems⟩ := shows_list_iff.mp h
    cases t' with
    | list _ items' => exact .inr (.inl ⟨_, _, _, _, values, rfl, rfl, hitems, h'⟩)
    | scalar v _ _ => exact absurd h' (v.json_ne_arr values)
    | broken _ _ | object _ _ => exact h'.elim
  | object _ members =>
    obtain ⟨entries, rfl, hmembers⟩ := shows_object_iff.mp h
    cases t' with
    | object _ members' => exact .inr (.inr ⟨_, _, _, _, entries, rfl, rfl, hmembers, h'⟩)
    | scalar v _ _ => exact absurd h' (v.json_ne_obj entries)
    | broken _ _ | list _ _ => exact h'.elim

/-! ### Results without problems -/

section Results

variable {α β ε ε' : Type}

/-- Two results agree if they are the same, or problems both. -/
theorem toOption_eq_toOption_iff {x : Except ε α} {y : Except ε' α} :
    x.toOption = y.toOption ↔
      (∃ a, x = .ok a ∧ y = .ok a) ∨ (∃ p, x = .error p) ∧ ∃ p, y = .error p := by
  cases x <;> cases y <;> simp [Except.toOption, eq_comm]

theorem toOption_map (f : α → β) (x : Except ε α) : (x.map f).toOption = x.toOption.map f := by
  cases x <;> rfl

theorem toOption_mapError (f : ε → ε') (x : Except ε α) :
    (x.mapError f).toOption = x.toOption := by
  cases x <;> rfl

end Results

/-! ### Indifferent decoders -/

section Decoders

variable {α β δ : Type}

/-- The decoder reads the same from all trees of a value, or has a problem with all of them. -/
def Decoder.Indifferent (decode : Decoder α) : Prop :=
  ∀ ⦃t t' : Located⦄ ⦃j : Json⦄, t.Shows j → t'.Shows j →
    (decode t).toOption = (decode t').toOption

namespace Json

variable {decode : Decoder α}

theorem indifferent_text : text.Indifferent := by
  intro t t' j h h'
  obtain ⟨value, _, _, _, _, rfl, rfl⟩ | ⟨_, _, _, _, _, rfl, rfl, -⟩ |
    ⟨_, _, _, _, _, rfl, rfl, -⟩ := h.alike h'
  · cases value <;> rfl
  · rfl
  · rfl

/-- A decoder that asks for the value of the tree only. -/
theorem indifferent_of_json (h : ∀ t t', t.json = t'.json → decode t = decode t') :
    decode.Indifferent := by
  intro t t' j ht ht'
  rw [h t t' (ht.json_eq.trans ht'.json_eq.symm)]

theorem indifferent_inSomeForm (type : String) (read : Json → Option α) :
    (inSomeForm type read).Indifferent :=
  indifferent_of_json fun t t' h => by simp only [inSomeForm, whole, h]

theorem indifferent_optional (h : decode.Indifferent) : (optional decode).Indifferent := by
  intro t t' j ht ht'
  have hvalue : ((decode t).map some).toOption = ((decode t').map some).toOption := by
    rw [toOption_map, toOption_map, h ht ht']
  obtain ⟨value, _, _, _, _, rfl, rfl⟩ | ⟨_, _, _, _, _, rfl, rfl, -⟩ |
    ⟨_, _, _, _, _, rfl, rfl, -⟩ := ht.alike ht'
  · cases value with
    | null => rfl
    | _ => exact hvalue
  · exact hvalue
  · exact hvalue

theorem toOption_eachItem (h : decode.Indifferent) {values : List Json} {items items' : Items}
    (hi : items.Shows values) (hi' : items'.Shows values) :
    (eachItem decode items).toOption = (eachItem decode items').toOption := by
  induction values generalizing items items' with
  | nil =>
    obtain ⟨_, rfl⟩ := Items.shows_nil_iff.mp hi
    obtain ⟨_, rfl⟩ := Items.shows_nil_iff.mp hi'
    rfl
  | cons j values ih =>
    obtain ⟨_, value, _, rest, rfl, hvalue, hrest⟩ := Items.shows_cons_iff.mp hi
    obtain ⟨_, value', _, rest', rfl, hvalue', hrest'⟩ := Items.shows_cons_iff.mp hi'
    simp only [eachItem]
    obtain ⟨a, ha, ha'⟩ | ⟨⟨p, hp⟩, p', hp'⟩ := toOption_eq_toOption_iff.mp (h hvalue hvalue')
    · simp only [ha, ha', toOption_map, ih hrest hrest']
    · simp only [hp, hp', Except.toOption]

theorem indifferent_each (h : decode.Indifferent) : (each decode).Indifferent := by
  intro t t' j ht ht'
  obtain ⟨_, _, _, _, _, rfl, rfl⟩ | ⟨_, _, _, _, _, rfl, rfl, hi, hi'⟩ |
    ⟨_, _, _, _, _, rfl, rfl, -⟩ := ht.alike ht'
  · rfl
  · exact toOption_eachItem h hi hi'
  · rfl

/-! ### Records -/

namespace Record

variable {r : Record δ α}

/-- The fields are read the same from all trees of a value. -/
def IndifferentFields (fields : List (RecordField δ)) : Prop :=
  ∀ field ∈ fields, ∀ draft, Decoder.Indifferent fun t => field.fill t draft

theorem indifferent_of (name : String) (required : Bool) {decode : Decoder β}
    (get : δ → Option β) (set : β → δ → δ) (h : decode.Indifferent) (draft : δ) :
    Decoder.Indifferent fun t => (RecordField.of name required decode get set).fill t draft := by
  intro t t' j ht ht'
  simp only [RecordField.of, toOption_map, h ht ht']

theorem toOption_finish (r : Record δ α) (draft : δ) (place place' : Option Place) :
    (r.finish draft place).toOption = (r.finish draft place').toOption := by
  unfold finish
  cases r.build draft <;> rfl

theorem toOption_ofMembers (h : IndifferentFields r.fields) {entries : List (String × Json)}
    {members members' : Members} (hm : members.Shows entries) (hm' : members'.Shows entries)
    (draft : δ) :
    (r.ofMembers draft members).toOption = (r.ofMembers draft members').toOption := by
  -- The two drafts are the same as long as no problem was met.
  induction entries generalizing draft members members' with
  | nil =>
    obtain ⟨_, rfl⟩ := Members.shows_nil_iff.mp hm
    obtain ⟨_, rfl⟩ := Members.shows_nil_iff.mp hm'
    exact toOption_finish r draft _ _
  | cons entry entries ih =>
    obtain ⟨_, _, value, _, rest, rfl, hvalue, hrest⟩ := Members.shows_cons_iff.mp hm
    obtain ⟨_, _, value', _, rest', rfl, hvalue', hrest'⟩ := Members.shows_cons_iff.mp hm'
    simp only [ofMembers]
    cases hfield : r.fields.find? fun field => field.name = entry.1 with
    | some field =>
      -- A field that is there twice is a problem in both trees.
      by_cases hfilled : field.isFilled draft = true
      · simp only [hfilled, if_true, Except.toOption]
      · simp only [hfilled, Bool.false_eq_true, if_false]
        obtain ⟨next, hnext, hnext'⟩ | ⟨⟨p, hp⟩, p', hp'⟩ := toOption_eq_toOption_iff.mp
          (h field (List.mem_of_find?_eq_some hfield) draft hvalue hvalue')
        · simp only [hnext, hnext', ih hrest hrest']
        · simp only [hp, hp', Except.toOption]
    | none =>
      by_cases hstrict : r.strict = true
      · simp only [hstrict, if_true, Except.toOption]
      · simp only [hstrict, Bool.false_eq_true, if_false, ih hrest hrest']

theorem toOption_ofItems {fields : List (RecordField δ)} (h : IndifferentFields fields)
    {values : List Json} {items items' : Items} (hi : items.Shows values)
    (hi' : items'.Shows values) (n : Nat) (draft : δ) :
    (r.ofItems fields n draft items).toOption = (r.ofItems fields n draft items').toOption := by
  induction fields generalizing n draft values items items' with
  | nil =>
    cases values with
    | nil =>
      obtain ⟨_, rfl⟩ := Items.shows_nil_iff.mp hi
      obtain ⟨_, rfl⟩ := Items.shows_nil_iff.mp hi'
      exact toOption_finish r draft _ _
    | cons j values =>
      obtain ⟨_, _, _, _, rfl, -⟩ := Items.shows_cons_iff.mp hi
      obtain ⟨_, _, _, _, rfl, -⟩ := Items.shows_cons_iff.mp hi'
      rfl
  | cons field fields ih =>
    obtain ⟨hfield, hfields⟩ := List.forall_mem_cons.mp h
    cases values with
    | nil =>
      obtain ⟨_, rfl⟩ := Items.shows_nil_iff.mp hi
      obtain ⟨_, rfl⟩ := Items.shows_nil_iff.mp hi'
      -- Fields beyond the end of the list are left out, or missed.
      simp only [ofItems]
      split
      · rfl
      · exact ih hfields hi hi' _ _
    | cons j values =>
      obtain ⟨_, value, _, rest, rfl, hvalue, hrest⟩ := Items.shows_cons_iff.mp hi
      obtain ⟨_, value', _, rest', rfl, hvalue', hrest'⟩ := Items.shows_cons_iff.mp hi'
      simp only [ofItems]
      obtain ⟨next, hnext, hnext'⟩ | ⟨⟨p, hp⟩, p', hp'⟩ :=
        toOption_eq_toOption_iff.mp (hfield draft hvalue hvalue')
      · simp only [hnext, hnext', ih hfields hrest hrest']
      · simp only [hp, hp', Except.toOption]

/-- A record is read the same from all trees of a value if its fields are. -/
theorem indifferent_decode (h : IndifferentFields r.fields) : r.decode.Indifferent := by
  intro t t' j ht ht'
  obtain ⟨_, _, _, _, _, rfl, rfl⟩ | ⟨_, _, _, _, _, rfl, rfl, hi, hi'⟩ |
    ⟨_, _, _, _, _, rfl, rfl, hm, hm'⟩ := ht.alike ht'
  · rfl
  · exact toOption_ofItems h hi hi' _ _
  · exact toOption_ofMembers h hm hm' _

end Record

end Json

end Decoders

end DatalogClient
