import DatalogClient.Proofs.Json.Lexemes
import DatalogClient.Proofs.Json.Soundness

/-!
# Compact texts and the depth of their containers

The compact text of a value is read back by a reader that may go as deep as the containers of the
value nest. A reader that may not go so deep meets a fault, and it meets the fault in a member
before it comes to any name that the value does not have.

## Main definitions

* `Json.nesting` — how many containers stand inside one another
* `Json.Whole` — every number of the value is read back as the integer that it is
* `Json.Reading.Bounded` — what a reader makes of a text, by whether its containers nest too deep
* `Members.FaultyUpTo` — the first fault stands under a name that is known

## Main results

* `Json.bounded_readValue` — the compact text of a value inside a longer text
* `Json.shows_ofText_compact`, `Json.faulty_ofText_compact` — the compact text by itself
* `Json.ofText_compact`, `Json.decodeText_compact` — what is read from it
-/

namespace DatalogClient

theorem Cursor.skipBlank_eq_self {c : Cursor} {ch : Char} {rest : List Char}
    (h : c.rest = ch :: rest) (hch : isJsonBlank ch = false) : c.skipBlank = c := by
  obtain ⟨chars, place⟩ := c
  obtain rfl : chars = ch :: rest := h
  rw [skipBlank, skipBlankFrom, if_neg (by rw [hch]; exact Bool.false_ne_true)]

/-- The object breaks off, or holds a value with a fault, before it holds a member whose name is not
known. -/
def Members.FaultyUpTo (known : List String) : Members → Prop
  | .close _ => False
  | .broken _ _ => True
  | .member name _ _ value _ _ rest =>
    name ∈ known ∧ ((∃ fault, value.json = .error fault) ∨ rest.FaultyUpTo known)

namespace Json

/-! ### How deep values nest -/

mutual

/-- How many containers of the value stand inside one another, at most. -/
def nesting : Json → Nat
  | .arr items => nestingOfItems items + 1
  | .obj members => nestingOfMembers members + 1
  | .null => 0
  | .bool _ => 0
  | .num _ => 0
  | .str _ => 0

/-- How many containers stand inside one another in an item, at most. -/
def nestingOfItems : List Json → Nat
  | [] => 0
  | item :: rest => max (nesting item) (nestingOfItems rest)

/-- How many containers stand inside one another in the value of a member, at most. -/
def nestingOfMembers : List (String × Json) → Nat
  | [] => 0
  | (_, value) :: rest => max (nesting value) (nestingOfMembers rest)

end

/-- A number is an integer that is read as one. -/
def WholeNumber : Json → Prop
  | .num (.int n) => IsWhole n
  | .num (.float _) => False
  | _ => True

/-- Every number of the value is an integer that is read as one. -/
def Whole (j : Json) : Prop := j.Every WholeNumber

@[simp] theorem whole_null : Json.null.Whole := trivial

@[simp] theorem whole_str (s : String) : (Json.str s).Whole := trivial

@[simp] theorem whole_int (n : Int) : (Json.num (.int n)).Whole ↔ IsWhole n := Iff.rfl

@[simp] theorem whole_arr (items : List Json) :
    (Json.arr items).Whole ↔ ∀ item ∈ items, item.Whole := by
  simp [Whole, WholeNumber]

@[simp] theorem whole_obj (members : List (String × Json)) :
    (Json.obj members).Whole ↔ ∀ member ∈ members, member.2.Whole := by
  simp [Whole, WholeNumber]

/-! ### How texts of values begin -/

/-- No digit is one of the other characters that mark how a text goes on. -/
theorem ne_of_isDigit {ch : Char} (h : ch.isDigit = true) :
    ∀ other ∈ ['n', 't', 'f', '-', '"', '[', '\x7b', ']', ' ', '\n', '\t', '\r'], ch ≠ other := by
  have hothers : ∀ other ∈ ['n', 't', 'f', '-', '"', '[', '\x7b', ']', ' ', '\n', '\t', '\r'],
      other.isDigit = false := by
    simp only [List.forall_mem_cons, List.not_mem_nil, false_imp_iff, implies_true, and_true]
    decide
  rintro other hother rfl
  exact absurd (h.symm.trans (hothers _ hother)) Bool.true_eq_false.mp

theorem exists_digit_eq_toDigits (n : Nat) :
    ∃ ch digits, Nat.toDigits 10 n = ch :: digits ∧ ch.isDigit = true := by
  cases hdigits : Nat.toDigits 10 n with
  | nil => exact absurd hdigits Nat.toDigits_ne_nil
  | cons ch digits =>
    exact ⟨ch, digits, rfl, isDigit_of_mem_toDigits (hdigits ▸ List.mem_cons_self)⟩

/-- The text of a value begins neither with white space nor as the end of a list does. -/
theorem exists_compactChars_eq_cons {j : Json} (hj : j.Whole) :
    ∃ ch tail, j.compactChars = ch :: tail ∧ Cursor.isJsonBlank ch = false ∧ ch ≠ ']' := by
  cases j with
  | num n =>
    cases n with
    | int n =>
      cases n with
      | ofNat n =>
        rw [compactChars, numberChars, Int.ofNat_eq_natCast, toList_toString_ofNat]
        obtain ⟨ch, tail, hhead, hdigit⟩ := exists_digit_eq_toDigits n
        have hne := ne_of_isDigit hdigit
        exact ⟨ch, tail, hhead, by simp [Cursor.isJsonBlank, hne], hne _ (by decide)⟩
      | negSucc n =>
        rw [compactChars, numberChars, toList_toString_negSucc]
        exact ⟨'-', _, rfl, by decide, by decide⟩
    | float x => exact hj.elim
  | bool b => cases b <;> exact ⟨_, _, rfl, by decide, by decide⟩
  | null => exact ⟨'n', _, rfl, by decide, by decide⟩
  | str s => exact ⟨'"', _, rfl, by decide, by decide⟩
  | arr items => exact ⟨'[', _, rfl, by decide, by decide⟩
  | obj members => exact ⟨'\x7b', _, rfl, by decide, by decide⟩

theorem endsValue_compactItemsAfter (items : List Json) (rest : List Char) :
    EndsValue (compactItemsAfter items ++ rest) := by
  cases items <;> simp [compactItemsAfter, EndsValue]

theorem endsValue_compactMembersAfter (members : List (String × Json)) (rest : List Char) :
    EndsValue (compactMembersAfter members ++ rest) := by
  cases members <;> simp [compactMembersAfter, EndsValue]

/-! ### What a reader makes of a text -/

section Bounded

variable {τ β : Type} {fuel depth : Nat} {c : Cursor} {rest : List Char}

/-- The reader met no fault, the tree shows the value, and this is what is left of the text. -/
structure Reading.Yields (shows : τ → β → Prop) (value : β) (rest : List Char)
    (r : Reading τ) : Prop where
  sound : r.sound = true
  shown : shows r.tree value
  next : r.next = some r.stop
  rest : r.stop.rest = rest

/-- Either the text fits and the value is read from it, or it does not and the tree is faulty. -/
def Reading.Bounded (shows : τ → β → Prop) (faulty : τ → Prop) (fits : Prop) (value : β)
    (rest : List Char) (r : Reading τ) : Prop :=
  (fits ∧ r.Yields shows value rest) ∨ (¬ fits ∧ r.sound = false ∧ faulty r.tree)

/-- A value is read from its text, unless it nests too deep. -/
abbrev BoundedValue (depth : Nat) (j : Json) : List Char → Reading Located → Prop :=
  Reading.Bounded Located.Shows (fun t => ∃ fault, t.json = .error fault) (j.nesting ≤ depth) j

/-- The rest of a list is read from its text, unless an item nests too deep. -/
abbrev BoundedItems (depth : Nat) (items : List Json) : List Char → Reading Items → Prop :=
  Reading.Bounded Items.Shows (fun _ => True) (nestingOfItems items ≤ depth) items

/-- The rest of an object is read from its text, unless the value of a member nests too deep. -/
abbrev BoundedMembers (depth : Nat) (members : List (String × Json)) :
    List Char → Reading Members → Prop :=
  Reading.Bounded Members.Shows
    (fun t => ∀ known, (∀ member ∈ members, member.1 ∈ known) → t.FaultyUpTo known)
    (nestingOfMembers members ≤ depth) members

/-- A reading of a value that keeps its account is bounded if it is sound just where it fits. -/
theorem boundedValue_of_not_sound {j : Json} (hdepth : ¬ j.nesting ≤ depth)
    (hsound : (readValue fuel depth c).sound = false) :
    BoundedValue depth j rest (readValue fuel depth c) := by
  -- A reading that is not sound shows its fault in the tree.
  obtain ⟨htrue, -⟩ | ⟨-, hfault⟩ := (faithful_read fuel).1 depth c
  · exact absurd (htrue.symm.trans hsound) Bool.true_eq_false.mp
  · exact .inr ⟨hdepth, hsound, hfault⟩

/-! ### Scalars -/

theorem bounded_scalarReading {value : Scalar} {d : Cursor} (hd : d.rest = rest)
    (hread : readValue fuel depth c = scalarReading c (.ok (value, d))) :
    BoundedValue depth value.json rest (readValue fuel depth c) := by
  have hnesting : value.json.nesting = 0 := by cases value <;> rfl
  rw [hread]
  exact .inl ⟨hnesting ▸ Nat.zero_le depth, rfl, rfl, rfl, hd⟩

theorem bounded_null (h : c.rest = compactChars .null ++ rest) :
    BoundedValue depth .null rest (readValue (fuel + 1) depth c) := by
  obtain ⟨d, hd, hdrest⟩ := readWord_append ['u', 'l', 'l'] (Cursor.rest_next h)
  rw [compactChars, List.cons_append] at h
  have hread : readValue (fuel + 1) depth c = scalarReading c (.ok (.null, d)) := by
    rw [readValue.eq_def]
    simp [Cursor.skipBlank_eq_self h (by decide), h, hd, Except.map]
  exact bounded_scalarReading hdrest hread

theorem bounded_bool (b : Bool) (h : c.rest = compactChars (.bool b) ++ rest) :
    BoundedValue depth (.bool b) rest (readValue (fuel + 1) depth c) := by
  cases b with
  | true =>
    obtain ⟨d, hd, hdrest⟩ := readWord_append ['r', 'u', 'e'] (Cursor.rest_next h)
    rw [compactChars, boolChars, if_pos rfl, List.cons_append] at h
    have hread : readValue (fuel + 1) depth c = scalarReading c (.ok (.bool true, d)) := by
      rw [readValue.eq_def]
      simp [Cursor.skipBlank_eq_self h (by decide), h, hd, Except.map]
    exact bounded_scalarReading hdrest hread
  | false =>
    obtain ⟨d, hd, hdrest⟩ := readWord_append ['a', 'l', 's', 'e'] (Cursor.rest_next h)
    rw [compactChars, boolChars, if_neg Bool.false_ne_true, List.cons_append] at h
    have hread : readValue (fuel + 1) depth c = scalarReading c (.ok (.bool false, d)) := by
      rw [readValue.eq_def]
      simp [Cursor.skipBlank_eq_self h (by decide), h, hd, Except.map]
    exact bounded_scalarReading hdrest hread

theorem bounded_str (s : String) (h : c.rest = compactChars (.str s) ++ rest) :
    BoundedValue depth (.str s) rest (readValue (fuel + 1) depth c) := by
  obtain ⟨d, hd, hdrest⟩ := readString_append h
  rw [compactChars, stringChars, List.cons_append, List.cons_append] at h
  have hread : readValue (fuel + 1) depth c = scalarReading c (.ok (.str s, d)) := by
    rw [readValue.eq_def]
    simp [Cursor.skipBlank_eq_self h (by decide), h, hd, Except.map]
  exact bounded_scalarReading hdrest hread

theorem bounded_int {n : Int} (hn : IsWhole n) (h : c.rest = compactChars (.int n) ++ rest)
    (hrest : EndsValue rest) :
    BoundedValue depth (.int n) rest (readValue (fuel + 1) depth c) := by
  cases n with
  | ofNat n =>
    rw [int, compactChars, numberChars, Int.ofNat_eq_natCast, toList_toString_ofNat] at h
    obtain ⟨d, hd, hdrest⟩ := readNumber_ofNat hn h hrest
    obtain ⟨ch, tail, hhead, hdigit⟩ := exists_digit_eq_toDigits n
    have hne := ne_of_isDigit hdigit
    have hblank : Cursor.isJsonBlank ch = false := by simp [Cursor.isJsonBlank, hne]
    rw [hhead, List.cons_append] at h
    have hread : readValue (fuel + 1) depth c = scalarReading c (.ok (.num (.int n), d)) := by
      rw [readValue.eq_def]
      simp [Cursor.skipBlank_eq_self h hblank, h, hne, hdigit, hd, Except.map]
    exact bounded_scalarReading hdrest hread
  | negSucc n =>
    rw [int, compactChars, numberChars, toList_toString_negSucc, List.cons_append] at h
    obtain ⟨d, hd, hdrest⟩ := readNumber_negSucc hn (Cursor.rest_next h) hrest
    have hread : readValue (fuel + 1) depth c =
        scalarReading c (.ok (.num (.int (.negSucc n)), d)) := by
      rw [readValue.eq_def]
      simp [Cursor.skipBlank_eq_self h (by decide), h, hd, Except.map]
    exact bounded_scalarReading hdrest hread

/-! ### Lists -/

/-- The text of a value is read as far as the depth allows, whatever stands around it. -/
def ReadsBounded (j : Json) : Prop :=
  ∀ {fuel depth : Nat} {c : Cursor} {rest : List Char}, c.rest = j.compactChars ++ rest →
    EndsValue rest → 2 * j.compactChars.length ≤ fuel →
      BoundedValue depth j rest (readValue fuel depth c)

/-- An item is read and then what follows it, unless one of them nests too deep. -/
theorem bounded_readItem {item : Json} {others : List Json} {between : List Char}
    (surplus : Fault) (hitem : BoundedValue depth item between (readValue fuel depth c))
    (hothers : ∀ d : Cursor, d.rest = between →
      BoundedItems depth others rest (readItems fuel depth false d)) :
    BoundedItems depth (item :: others) rest (readItem (fuel + 1) depth surplus c) := by
  have hfits : nestingOfItems (item :: others) ≤ depth ↔
      item.nesting ≤ depth ∧ nestingOfItems others ≤ depth := by
    rw [nestingOfItems, Nat.max_le]
  rw [readItem.eq_def]
  simp only []
  obtain ⟨hdepth, hvalue⟩ | ⟨hdepth, hsound, -⟩ := hitem
  · simp only [hvalue.next, hvalue.sound, if_true, Bool.true_and]
    obtain ⟨hdepth', hrest⟩ | ⟨hdepth', hsound, -⟩ := hothers _ hvalue.rest
    · exact .inl ⟨hfits.mpr ⟨hdepth, hdepth'⟩, hrest.sound, ⟨hvalue.shown, hrest.shown⟩,
        hrest.next, hrest.rest⟩
    · exact .inr ⟨fun h => hdepth' (hfits.mp h).2, hsound, trivial⟩
  · -- Whether the reader gets through or not, the fault stays.
    refine .inr ⟨fun h => hdepth (hfits.mp h).1, ?_, trivial⟩
    cases (readValue fuel depth c).next with
    | none => rfl
    | some d => simp only [hsound, Bool.false_and]

theorem bounded_readItems_after {items : List Json} (hitems : ∀ item ∈ items, item.ReadsBounded)
    (hwhole : ∀ item ∈ items, item.Whole) (h : c.rest = compactItemsAfter items ++ rest)
    (hfuel : 2 * (compactItemsAfter items).length ≤ fuel) :
    BoundedItems depth items rest (readItems fuel depth false c) := by
  induction items generalizing fuel c with
  | nil =>
    obtain ⟨fuel, rfl⟩ : ∃ k, fuel = k + 1 :=
      ⟨fuel - 1, by simp [compactItemsAfter] at hfuel; omega⟩
    rw [compactItemsAfter, List.singleton_append] at h
    rw [readItems.eq_def]
    simp only [Cursor.skipBlank_eq_self h (by decide), h, if_true]
    exact .inl ⟨Nat.zero_le depth, rfl, trivial, rfl, Cursor.rest_next h⟩
  | cons item others ih =>
    rw [List.forall_mem_cons] at hitems hwhole
    rw [compactItemsAfter, List.length_cons, List.length_append] at hfuel
    rw [compactItemsAfter, List.cons_append, List.append_assoc] at h
    -- One step of fuel takes the comma and one the item, and the text is longer than that.
    obtain ⟨fuel, rfl⟩ : ∃ k, fuel = k + 2 := ⟨fuel - 2, by omega⟩
    have hnext := Cursor.rest_next h
    obtain ⟨ch, tail, hhead, hblank, hclose⟩ := exists_compactChars_eq_cons hwhole.1
    have hstart := hnext
    rw [hhead, List.cons_append] at hstart
    have hread : readItems (fuel + 2) depth false c =
        readItem (fuel + 1) depth ⟨.textAfterEnd, c.next.ahead⟩ c.next := by
      rw [readItems.eq_def]
      simp [Cursor.skipBlank_eq_self h (by decide), h, Cursor.skipBlank_eq_self hstart hblank,
        hstart, hclose]
    rw [hread]
    exact bounded_readItem _
      (hitems.1 hnext (endsValue_compactItemsAfter others rest) (by omega))
      fun d hd => ih hitems.2 hwhole.2 hd (by omega)

theorem bounded_readItems {items : List Json} (hitems : ∀ item ∈ items, item.ReadsBounded)
    (hwhole : ∀ item ∈ items, item.Whole) (h : c.rest = compactItems items ++ rest)
    (hfuel : 2 * (compactItems items).length ≤ fuel) :
    BoundedItems depth items rest (readItems fuel depth true c) := by
  cases items with
  | nil =>
    obtain ⟨fuel, rfl⟩ : ∃ k, fuel = k + 1 := ⟨fuel - 1, by simp [compactItems] at hfuel; omega⟩
    rw [compactItems, List.singleton_append] at h
    rw [readItems.eq_def]
    simp only [Cursor.skipBlank_eq_self h (by decide), h, if_true]
    exact .inl ⟨Nat.zero_le depth, rfl, trivial, rfl, Cursor.rest_next h⟩
  | cons item others =>
    rw [List.forall_mem_cons] at hitems hwhole
    rw [compactItems, List.length_append] at hfuel
    rw [compactItems, List.append_assoc] at h
    obtain ⟨ch, tail, hhead, hblank, hclose⟩ := exists_compactChars_eq_cons hwhole.1
    have hstart := h
    rw [hhead, List.cons_append] at hstart
    have hitem : 0 < item.compactChars.length := by
      rw [hhead]
      exact Nat.zero_lt_succ _
    -- No comma comes before the first item, so the step for it is paid by what comes after.
    have hafter : 0 < (compactItemsAfter others).length := by
      cases others <;> exact Nat.zero_lt_succ _
    obtain ⟨fuel, rfl⟩ : ∃ k, fuel = k + 2 := ⟨fuel - 2, by omega⟩
    have hread : readItems (fuel + 2) depth true c =
        readItem (fuel + 1) depth ⟨.textAfterEnd, c.ahead⟩ c := by
      rw [readItems.eq_def]
      simp [Cursor.skipBlank_eq_self hstart hblank, hstart, hclose]
    rw [hread]
    exact bounded_readItem _
      (hitems.1 h (endsValue_compactItemsAfter others rest) (by omega))
      fun d hd => bounded_readItems_after hitems.2 hwhole.2 hd (by omega)

/-! ### Objects -/

/-- A member is read and then what follows it, unless a value nests too deep. -/
theorem bounded_readMember {name : String} {value : Json} {others : List (String × Json)}
    {behind between : List Char} (h : c.rest = stringChars name ++ ':' :: behind)
    (hvalue : ∀ d : Cursor, d.rest = behind →
      BoundedValue depth value between (readValue fuel depth d))
    (hothers : ∀ d : Cursor, d.rest = between →
      BoundedMembers depth others rest (readMembers fuel depth false d)) :
    BoundedMembers depth ((name, value) :: others) rest (readMember (fuel + 1) depth c) := by
  have hfits : nestingOfMembers ((name, value) :: others) ≤ depth ↔
      value.nesting ≤ depth ∧ nestingOfMembers others ≤ depth := by
    rw [nestingOfMembers, Nat.max_le]
  obtain ⟨d, hname, hd⟩ := readString_append h
  rw [readMember.eq_def]
  simp only [hname, Cursor.skipBlank_eq_self hd (by decide), hd]
  obtain ⟨hdepth, hread⟩ | ⟨hdepth, hsound, hfault⟩ := hvalue d.next (Cursor.rest_next hd)
  · simp only [hread.sound, if_true]
    obtain ⟨hdepth', hrest⟩ | ⟨hdepth', hsound, hfaulty⟩ := hothers _ hread.rest
    · exact .inl ⟨hfits.mpr ⟨hdepth, hdepth'⟩, hrest.sound, ⟨rfl, hread.shown, rfl, hrest.shown⟩,
        hrest.next, hrest.rest⟩
    · refine .inr ⟨fun h => hdepth' (hfits.mp h).2, hsound, ?_⟩
      intro known hknown
      rw [List.forall_mem_cons] at hknown
      exact ⟨hknown.1, .inr (hfaulty known hknown.2)⟩
  · -- The fault is in this member, whatever becomes of those after it.
    refine .inr ⟨fun h => hdepth (hfits.mp h).1, ?_⟩
    rw [if_neg (by rw [hsound]; exact Bool.false_ne_true)]
    cases skipValue d.next with
    | error s => exact ⟨rfl, fun known hknown => ⟨hknown _ List.mem_cons_self, .inl hfault⟩⟩
    | ok f => exact ⟨rfl, fun known hknown => ⟨hknown _ List.mem_cons_self, .inl hfault⟩⟩

theorem bounded_readMembers_after {members : List (String × Json)}
    (hmembers : ∀ member ∈ members, member.2.ReadsBounded)
    (h : c.rest = compactMembersAfter members ++ rest)
    (hfuel : 2 * (compactMembersAfter members).length ≤ fuel) :
    BoundedMembers depth members rest (readMembers fuel depth false c) := by
  induction members generalizing fuel c with
  | nil =>
    rw [compactMembersAfter, List.length_singleton] at hfuel
    obtain ⟨fuel, rfl⟩ : ∃ k, fuel = k + 1 := ⟨fuel - 1, by omega⟩
    rw [compactMembersAfter, List.singleton_append] at h
    rw [readMembers.eq_def]
    simp only [Cursor.skipBlank_eq_self h (by decide), h, if_true]
    exact .inl ⟨Nat.zero_le depth, rfl, trivial, rfl, Cursor.rest_next h⟩
  | cons member others ih =>
    obtain ⟨name, value⟩ := member
    rw [List.forall_mem_cons] at hmembers
    have hvalue : value.ReadsBounded := hmembers.1
    simp only [compactMembersAfter, List.length_cons, List.length_append] at hfuel
    simp only [compactMembersAfter, List.cons_append, List.append_assoc] at h
    -- As for items, the comma and the member take a step of fuel each.
    obtain ⟨fuel, rfl⟩ : ∃ k, fuel = k + 2 := ⟨fuel - 2, by omega⟩
    have hnext := Cursor.rest_next h
    have hquote := hnext
    rw [stringChars, List.cons_append, List.cons_append] at hquote
    have hread : readMembers (fuel + 2) depth false c = readMember (fuel + 1) depth c.next := by
      rw [readMembers.eq_def]
      simp [Cursor.skipBlank_eq_self h (by decide), h,
        Cursor.skipBlank_eq_self hquote (by decide), hquote]
    rw [hread]
    exact bounded_readMember hnext
      (fun d hd => hvalue hd (endsValue_compactMembersAfter others rest) (by omega))
      fun d hd => ih hmembers.2 hd (by omega)

theorem bounded_readMembers {members : List (String × Json)}
    (hmembers : ∀ member ∈ members, member.2.ReadsBounded)
    (h : c.rest = compactMembers members ++ rest)
    (hfuel : 2 * (compactMembers members).length ≤ fuel) :
    BoundedMembers depth members rest (readMembers fuel depth true c) := by
  cases members with
  | nil =>
    rw [compactMembers, List.length_singleton] at hfuel
    obtain ⟨fuel, rfl⟩ : ∃ k, fuel = k + 1 := ⟨fuel - 1, by omega⟩
    rw [compactMembers, List.singleton_append] at h
    rw [readMembers.eq_def]
    simp only [Cursor.skipBlank_eq_self h (by decide), h, if_true]
    exact .inl ⟨Nat.zero_le depth, rfl, trivial, rfl, Cursor.rest_next h⟩
  | cons member others =>
    obtain ⟨name, value⟩ := member
    rw [List.forall_mem_cons] at hmembers
    have hvalue : value.ReadsBounded := hmembers.1
    simp only [compactMembers, List.length_cons, List.length_append] at hfuel
    simp only [compactMembers, List.cons_append, List.append_assoc] at h
    have hname : 2 ≤ (stringChars name).length := by
      simp only [stringChars, List.length_cons, List.length_append, List.length_nil]
      omega
    obtain ⟨fuel, rfl⟩ : ∃ k, fuel = k + 2 := ⟨fuel - 2, by omega⟩
    have hquote := h
    rw [stringChars, List.cons_append, List.cons_append] at hquote
    have hread : readMembers (fuel + 2) depth true c = readMember (fuel + 1) depth c := by
      rw [readMembers.eq_def]
      simp [Cursor.skipBlank_eq_self hquote (by decide), hquote]
    rw [hread]
    exact bounded_readMember h
      (fun d hd => hvalue hd (endsValue_compactMembersAfter others rest) (by omega))
      fun d hd => bounded_readMembers_after hmembers.2 hd (by omega)

/-! ### Values -/

theorem readValue_list (h : c.rest = '[' :: rest) :
    readValue (fuel + 1) (depth + 1) c =
      ⟨.list (some c.place) (readItems fuel depth true c.next).tree,
        (readItems fuel depth true c.next).stop, (readItems fuel depth true c.next).next,
        (readItems fuel depth true c.next).sound⟩ := by
  rw [readValue.eq_def]
  simp [Cursor.skipBlank_eq_self h (by decide), h]

theorem readValue_object (h : c.rest = '\x7b' :: rest) :
    readValue (fuel + 1) (depth + 1) c =
      ⟨.object (some c.place) (readMembers fuel depth true c.next).tree,
        (readMembers fuel depth true c.next).stop, (readMembers fuel depth true c.next).next,
        (readMembers fuel depth true c.next).sound⟩ := by
  rw [readValue.eq_def]
  simp [Cursor.skipBlank_eq_self h (by decide), h]

/-- Where no container may be opened none is. -/
theorem sound_readValue_zero {ch : Char} (h : c.rest = ch :: rest) (hch : ch = '[' ∨ ch = '\x7b') :
    (readValue (fuel + 1) 0 c).sound = false := by
  have hblank : Cursor.isJsonBlank ch = false := by obtain rfl | rfl := hch <;> decide
  rw [readValue.eq_def]
  obtain rfl | rfl := hch <;> simp [Cursor.skipBlank_eq_self h hblank, h, brokenValue]

theorem bounded_list {items : List Json} (h : c.rest = compactChars (.arr items) ++ rest)
    (hitems : ∀ (depth : Nat) (d : Cursor), d.rest = compactItems items ++ rest →
      BoundedItems depth items rest (readItems fuel depth true d)) :
    BoundedValue depth (.arr items) rest (readValue (fuel + 1) depth c) := by
  rw [compactChars, List.cons_append] at h
  cases depth with
  | zero =>
    exact boundedValue_of_not_sound (Nat.not_succ_le_zero _) (sound_readValue_zero h (.inl rfl))
  | succ depth =>
    obtain ⟨hdepth, hyields⟩ | ⟨hdepth, hsound, -⟩ := hitems depth c.next (Cursor.rest_next h)
    · rw [readValue_list h]
      exact .inl ⟨Nat.succ_le_succ hdepth, hyields.sound, hyields.shown, hyields.next,
        hyields.rest⟩
    · -- The list opens within the depth, so it is an item of it that does not fit.
      refine boundedValue_of_not_sound (fun hle => hdepth (Nat.le_of_succ_le_succ hle)) ?_
      rw [readValue_list h]
      exact hsound

theorem bounded_object {members : List (String × Json)}
    (h : c.rest = compactChars (.obj members) ++ rest)
    (hmembers : ∀ (depth : Nat) (d : Cursor), d.rest = compactMembers members ++ rest →
      BoundedMembers depth members rest (readMembers fuel depth true d)) :
    BoundedValue depth (.obj members) rest (readValue (fuel + 1) depth c) := by
  rw [compactChars, List.cons_append] at h
  cases depth with
  | zero =>
    exact boundedValue_of_not_sound (Nat.not_succ_le_zero _) (sound_readValue_zero h (.inr rfl))
  | succ depth =>
    obtain ⟨hdepth, hyields⟩ | ⟨hdepth, hsound, -⟩ := hmembers depth c.next (Cursor.rest_next h)
    · rw [readValue_object h]
      exact .inl ⟨Nat.succ_le_succ hdepth, hyields.sound, hyields.shown, hyields.next,
        hyields.rest⟩
    · refine boundedValue_of_not_sound (fun hle => hdepth (Nat.le_of_succ_le_succ hle)) ?_
      rw [readValue_object h]
      exact hsound

/-- No value is read without fuel, so it is enough to look at readers that have some. -/
theorem readsBounded_of_succ {j : Json} (hj : j.Whole)
    (h : ∀ {fuel depth : Nat} {c : Cursor} {rest : List Char}, c.rest = j.compactChars ++ rest →
      EndsValue rest → 2 * j.compactChars.length ≤ fuel + 1 →
        BoundedValue depth j rest (readValue (fuel + 1) depth c)) : j.ReadsBounded := by
  intro fuel depth c rest hc hrest hfuel
  obtain ⟨ch, tail, hhead, -⟩ := exists_compactChars_eq_cons hj
  have hpos : 0 < j.compactChars.length := by
    rw [hhead]
    exact Nat.zero_lt_succ _
  obtain ⟨fuel, rfl⟩ : ∃ k, fuel = k + 1 := ⟨fuel - 1, by omega⟩
  exact h hc hrest hfuel

/-- The text of a value is read as far as the depth allows, whatever stands around it. -/
theorem bounded_readValue {j : Json} (hj : j.Whole) : j.ReadsBounded := by
  induction j using nestedInduction with
  | null => exact readsBounded_of_succ hj fun h _ _ => bounded_null h
  | bool b => exact readsBounded_of_succ hj fun h _ _ => bounded_bool b h
  | str s => exact readsBounded_of_succ hj fun h _ _ => bounded_str s h
  | num n =>
    cases n with
    | int n => exact readsBounded_of_succ hj fun h hrest _ => bounded_int hj h hrest
    | float x => exact hj.elim
  | arr items ih =>
    have hitems := (whole_arr items).mp hj
    apply readsBounded_of_succ hj
    intro fuel depth c rest h _ hfuel
    rw [compactChars, List.length_cons] at hfuel
    apply bounded_list h
    intro depth d hd
    exact bounded_readItems (fun item hmem => ih item hmem (hitems item hmem)) hitems hd (by omega)
  | obj members ih =>
    have hmembers := (whole_obj members).mp hj
    apply readsBounded_of_succ hj
    intro fuel depth c rest h _ hfuel
    rw [compactChars, List.length_cons] at hfuel
    apply bounded_object h
    intro depth d hd
    exact bounded_readMembers (fun member hmem => ih member hmem (hmembers member hmem)) hd
      (by omega)

end Bounded

/-! ### Whole texts -/

theorem rest_ofText_compact (j : Json) : (Cursor.ofText j.compact).rest = j.compactChars := by
  rw [Cursor.ofText, compact, String.toList_ofList]

theorem length_compact (j : Json) : j.compact.length = j.compactChars.length :=
  String.length_ofList

/-- The compact text of a value that nests within the limit is read without a fault, and nothing
follows. -/
theorem shows_ofText_compact {limit : Nat} {j : Json} (hj : j.Whole) (hlimit : j.nesting ≤ limit) :
    (LocatedText.ofText limit j.compact).root.Shows j ∧
      (LocatedText.ofText limit j.compact).surplus = none := by
  have hstart : (Cursor.ofText j.compact).rest = j.compactChars ++ [] := by
    rw [rest_ofText_compact, List.append_nil]
  have hfuel : 2 * j.compactChars.length ≤ 6 * j.compact.length + 6 := by
    rw [length_compact]
    omega
  have hread : BoundedValue limit j [] (readValue (6 * j.compact.length + 6) limit
      (Cursor.ofText j.compact)) := bounded_readValue hj hstart endsValue_nil hfuel
  obtain ⟨-, hyields⟩ | ⟨hdepth, -⟩ := hread
  · refine ⟨hyields.shown, ?_⟩
    have hblank : ∀ c : Cursor, c.rest = [] → c.skipBlank.rest = [] := by
      intro c hc
      rw [Cursor.skipBlank, hc]
      rfl
    simp only [LocatedText.ofText, hyields.next, Option.bind_some, hblank _ hyields.rest,
      List.isEmpty_nil, if_true]
  · exact absurd hlimit hdepth

section Compact

variable {j : Json}

/-- The compact text of a value that nests within the limit is read as the value. -/
theorem decodeText_whole_compact (hj : j.Whole) (hlimit : j.nesting ≤ nestingLimit) :
    decodeText whole j.compact = .ok j := by
  obtain ⟨hshows, hsurplus⟩ := shows_ofText_compact hj hlimit
  refine decodeText_eq_ok_iff.mpr ⟨?_, hsurplus⟩
  simp only [whole, hshows.json_eq]

theorem namesApart_compact (hj : j.Whole) (hlimit : j.nesting ≤ nestingLimit)
    (hdistinct : j.Distinct) : NamesApart j.compact :=
  ⟨j, decodeText_whole_compact hj hlimit, hdistinct⟩

/-- If no name repeats in it, it is read back also where repeated names are dropped. -/
theorem ofText_compact (hj : j.Whole) (hlimit : j.nesting ≤ nestingLimit)
    (hdistinct : j.Distinct) : ofText j.compact = .ok j := by
  obtain ⟨hshows, hsurplus⟩ := shows_ofText_compact hj hlimit
  refine decodeText_eq_ok_iff.mpr ⟨?_, hsurplus⟩
  simp only [anything, whole, hshows.json_eq, Except.map, collapse_eq_self hdistinct]

/-- What an indifferent decoder reads from a value it reads from the compact text, too. -/
theorem decodeText_compact {α : Type} {decode : Decoder α} (h : decode.Indifferent)
    (hj : j.Whole) (hlimit : j.nesting ≤ nestingLimit) {a : α}
    (hread : decode (.ofJson j) = .ok a) : decodeText decode j.compact = .ok a := by
  obtain ⟨hshows, hsurplus⟩ := shows_ofText_compact hj hlimit
  -- The tree of the text differs from the value in its places only.
  have hroot := h hshows (Located.shows_ofJson j)
  rw [hread, toOption_eq_toOption_iff] at hroot
  obtain ⟨_, hvalue, ⟨⟩⟩ | ⟨-, _, ⟨⟩⟩ := hroot
  exact decodeText_eq_ok_iff.mpr ⟨hvalue, hsurplus⟩

end Compact

/-- The compact text of an object whose containers nest beyond the limit is read as an object of
names that it has, up to a value with a fault. -/
theorem faulty_ofText_compact (limit : Nat) {members : List (String × Json)}
    (hj : (Json.obj members).Whole) (hlimit : limit < nestingOfMembers members) :
    ∃ start tree, (LocatedText.ofText (limit + 1) (Json.obj members).compact).root =
        .object start tree ∧
      ∀ known, (∀ member ∈ members, member.1 ∈ known) → tree.FaultyUpTo known := by
  have hstart := rest_ofText_compact (.obj members)
  have hlength := length_compact (.obj members)
  rw [compactChars] at hstart
  rw [compactChars, List.length_cons] at hlength
  have hnext : (Cursor.ofText (Json.obj members).compact).next.rest =
      compactMembers members ++ [] := by
    rw [Cursor.rest_next hstart, List.append_nil]
  have hvalues : ∀ member ∈ members, member.2.ReadsBounded := fun member hmem =>
    bounded_readValue ((whole_obj members).mp hj member hmem)
  have hfuel : 2 * (compactMembers members).length ≤ 6 * (Json.obj members).compact.length + 5 := by
    omega
  have hread : BoundedMembers limit members []
      (readMembers (6 * (Json.obj members).compact.length + 5) limit true
        (Cursor.ofText (Json.obj members).compact).next) :=
    bounded_readMembers hvalues hnext hfuel
  obtain ⟨hdepth, -⟩ | ⟨-, -, hfaulty⟩ := hread
  · omega
  · exact ⟨_, _, congrArg Reading.tree (readValue_object hstart), hfaulty⟩

end Json

end DatalogClient
