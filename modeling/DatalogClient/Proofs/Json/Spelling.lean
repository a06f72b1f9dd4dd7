import DatalogClient.Proofs.Json.Embedding

/-!
# Texts put together

A list or an object may be put together from the texts of its items or members, however these are
spelled. It is read as the list or the object of the values of these texts, if the containers of all
of them do not nest too deep.

## Main definitions

* `Json.Spelling` — characters, and the value that they are to be read as
* `Json.Spelling.list`, `Json.Spelling.object` — spellings put together
* `Json.Written` — a text that is read as a value

## Main results

* `Json.Spelling.isSpelled_list`, `Json.Spelling.isSpelled_object` — what is put together is read
* `Json.Spelling.whole_text` — a text that does not nest too deep is read as a whole
-/

namespace DatalogClient

namespace Json

/-- Characters, and the value that they are to be read as. -/
structure Spelling where
  chars : List Char
  value : Json

namespace Spelling

/-- The characters are read as the value wherever they stand. -/
def IsSpelled (x : Spelling) : Prop := Spelled x.chars x.value

/-- The text of the characters. -/
def text (x : Spelling) : String := String.ofList x.chars

/-! ### Putting together -/

/-- The rest of a list after an item. -/
def itemsAfter : List Spelling → List Char
  | [] => [']']
  | x :: rest => ',' :: (x.chars ++ itemsAfter rest)

/-- The list of items. -/
def list : List Spelling → Spelling
  | [] => ⟨['[', ']'], .arr []⟩
  | x :: rest => ⟨'[' :: (x.chars ++ itemsAfter rest), .arr (x.value :: rest.map value)⟩

/-- A member: its name as it is printed, and its value as it is spelled. -/
def memberChars (member : String × Spelling) : List Char :=
  stringChars member.1 ++ ':' :: member.2.chars

/-- The rest of an object after a member. -/
def membersAfter : List (String × Spelling) → List Char
  | [] => ['\x7d']
  | member :: rest => ',' :: (memberChars member ++ membersAfter rest)

/-- The object of members. -/
def object : List (String × Spelling) → Spelling
  | [] => ⟨['\x7b', '\x7d'], .obj []⟩
  | member :: rest =>
    ⟨'\x7b' :: (memberChars member ++ membersAfter rest),
      .obj ((member.1, member.2.value) :: rest.map fun other => (other.1, other.2.value))⟩

theorem value_list (items : List Spelling) : (list items).value = .arr (items.map value) := by
  cases items <;> rfl

theorem value_object (members : List (String × Spelling)) :
    (object members).value = .obj (members.map fun member => (member.1, member.2.value)) := by
  cases members <;> rfl

end Spelling

/-! ### Reading what is put together -/

section Readers

variable {fuel depth : Nat} {c : Cursor} {rest blank : List Char}

/-- What is read without a fault does not begin as the end of a list does. -/
theorem exists_head_of_sound (hsound : (readValue (fuel + 1) depth c).sound = true) :
    ∃ ch tail, c.skipBlank.rest = ch :: tail ∧ ch ≠ ']' := by
  rw [← readValue_skipBlank] at hsound
  cases hrest : c.skipBlank.rest with
  | nil =>
    rw [readValue.eq_def] at hsound
    simp only [Cursor.skipBlank_skipBlank, hrest] at hsound
    cases hsound
  | cons ch tail =>
    refine ⟨ch, tail, rfl, ?_⟩
    rintro rfl
    obtain ⟨scan, hscan⟩ | ⟨hlist, -⟩ | ⟨hobject, -⟩ :=
      begins_of_sound hrest (Cursor.isJsonBlank_head_skipBlank hrest) hsound
    · exact absurd hscan (by simp [scanScalar?])
    · exact absurd hlist (by decide)
    · exact absurd hobject (by decide)

/-- Where white space ends. -/
theorem skipBlank_blank {ch : Char} {tail : List Char}
    (hblank : ∀ ch ∈ blank, Cursor.isJsonBlank ch = true) (h : c.rest = blank ++ ch :: tail)
    (hch : Cursor.isJsonBlank ch = false) : c.skipBlank.rest = ch :: tail := by
  obtain ⟨chars, place⟩ := c
  obtain rfl : chars = blank ++ ch :: tail := h
  induction blank generalizing place with
  | nil => exact congrArg Cursor.rest (Cursor.skipBlank_eq_self rfl hch)
  | cons first blank ih =>
    rw [List.forall_mem_cons] at hblank
    rw [Cursor.skipBlank]
    simp only [List.cons_append, Cursor.skipBlankFrom, hblank.1, if_true]
    exact ih hblank.2 (place.after first)

theorem endsValue_itemsAfter (items : List Spelling) (rest : List Char) :
    EndsValue (Spelling.itemsAfter items ++ rest) := by
  cases items <;> simp [Spelling.itemsAfter, EndsValue]

theorem endsValue_membersAfter (members : List (String × Spelling)) (rest : List Char) :
    EndsValue (Spelling.membersAfter members ++ rest) := by
  cases members <;> simp [Spelling.membersAfter, EndsValue]

theorem length_itemsAfter_pos (items : List Spelling) :
    0 < (Spelling.itemsAfter items).length := by
  cases items <;> exact Nat.zero_lt_succ _

theorem length_membersAfter_pos (members : List (String × Spelling)) :
    0 < (Spelling.membersAfter members).length := by
  cases members <;> exact Nat.zero_lt_succ _

variable {x : Spelling} {items : List Spelling} {members : List (String × Spelling)}

/-- An item is read with what follows it, and it does not begin as the end of a list does. -/
theorem yields_item (hx : x.IsSpelled) (hfuel : 6 * x.chars.length + 6 ≤ fuel + 1)
    (hdepth : x.value.nesting ≤ depth)
    (hc : c.rest = x.chars ++ (Spelling.itemsAfter items ++ rest))
    (hothers : ∀ (blank : List Char) (d : Cursor),
      (∀ ch ∈ blank, Cursor.isJsonBlank ch = true) →
      d.rest = blank ++ (Spelling.itemsAfter items ++ rest) →
      (readItems (fuel + 1) depth false d).Yields Items.Shows (items.map Spelling.value) rest) :
    (∃ ch tail, c.skipBlank.rest = ch :: tail ∧ ch ≠ ']') ∧
      ∀ surplus, (readItem (fuel + 2) depth surplus c.skipBlank).Yields Items.Shows
        (x.value :: items.map Spelling.value) rest := by
  obtain ⟨blank, hblank, hread⟩ := hx (endsValue_itemsAfter items rest) hfuel hdepth hc
  refine ⟨exists_head_of_sound hread.sound, fun surplus => ?_⟩
  rw [← readValue_skipBlank] at hread
  have hrest := hothers blank _ hblank hread.rest
  simp only [readItem_next hread.next, hread.sound, if_true, Bool.true_and]
  exact ⟨hrest.sound, ⟨hread.shown, hrest.shown⟩, hrest.next, hrest.rest⟩

/-- The rest of a list is read after an item, and after the white space that this has left. -/
theorem yields_itemsAfter (hitems : ∀ x ∈ items, x.IsSpelled)
    (hfuel : 6 * (Spelling.itemsAfter items).length ≤ fuel)
    (hdepth : nestingOfItems (items.map Spelling.value) ≤ depth)
    (hblank : ∀ ch ∈ blank, Cursor.isJsonBlank ch = true)
    (hc : c.rest = blank ++ (Spelling.itemsAfter items ++ rest)) :
    (readItems fuel depth false c).Yields Items.Shows (items.map Spelling.value) rest := by
  induction items generalizing fuel c blank with
  | nil =>
    rw [Spelling.itemsAfter, List.length_singleton] at hfuel
    obtain ⟨fuel, rfl⟩ : ∃ k, fuel = k + 1 := ⟨fuel - 1, by omega⟩
    have hstart := skipBlank_blank hblank hc (by decide)
    rw [readItems_close hstart]
    exact ⟨rfl, trivial, rfl, Cursor.rest_next hstart⟩
  | cons x items ih =>
    rw [List.forall_mem_cons] at hitems
    rw [List.map_cons, nestingOfItems, Nat.max_le] at hdepth
    have hpos := length_itemsAfter_pos items
    simp only [Spelling.itemsAfter, List.length_cons, List.length_append] at hfuel
    simp only [Spelling.itemsAfter, List.cons_append, List.append_assoc] at hc
    -- A character of the text pays for six steps, and no more than three are taken for each.
    obtain ⟨fuel, rfl⟩ : ∃ k, fuel = k + 3 := ⟨fuel - 3, by omega⟩
    have hitem : 6 * x.chars.length + 6 ≤ fuel + 1 := by omega
    have hstart := skipBlank_blank hblank hc (by decide)
    obtain ⟨⟨ch, tail, hhead, hch⟩, hread⟩ := yields_item hitems.1 hitem hdepth.1
      (Cursor.rest_next hstart) fun _ d hblank hd => ih hitems.2 (by omega) hdepth.2 hblank hd
    rw [readItems_comma hstart hhead hch]
    exact hread _

theorem Spelling.isSpelled_list (h : ∀ x ∈ items, x.IsSpelled) : (list items).IsSpelled := by
  intro fuel depth c rest hrest hfuel hdepth hc
  refine ⟨[], nofun, ?_⟩
  rw [value_list, nesting] at hdepth
  obtain ⟨depth, rfl⟩ := Nat.exists_eq_add_one_of_ne_zero (Nat.ne_zero_of_lt hdepth)
  have hdepth' := Nat.le_of_succ_le_succ hdepth
  obtain ⟨fuel, rfl⟩ : ∃ k, fuel = k + 4 := ⟨fuel - 4, by omega⟩
  rw [value_list]
  cases items with
  | nil =>
    rw [list, List.cons_append, List.singleton_append] at hc
    have hclose : c.next.skipBlank.rest = ']' :: rest := by
      rw [Cursor.skipBlank_eq_self (Cursor.rest_next hc) (by decide), Cursor.rest_next hc]
    rw [readValue_list hc, readItems_close hclose]
    exact ⟨rfl, trivial, rfl, Cursor.rest_next hclose⟩
  | cons x items =>
    rw [List.forall_mem_cons] at h
    have hpos := length_itemsAfter_pos items
    simp only [list, List.length_cons, List.length_append] at hfuel
    simp only [list, List.cons_append, List.append_assoc] at hc
    rw [List.map_cons, nestingOfItems, Nat.max_le] at hdepth'
    have hitem : 6 * x.chars.length + 6 ≤ fuel + 1 := by omega
    obtain ⟨⟨ch, tail, hhead, hch⟩, hread⟩ := yields_item h.1 hitem hdepth'.1
      (Cursor.rest_next hc) fun _ d hblank hd =>
        yields_itemsAfter h.2 (by omega) hdepth'.2 hblank hd
    rw [readValue_list hc, readItems_first hhead hch]
    exact ⟨(hread _).sound, (hread _).shown, (hread _).next, (hread _).rest⟩

/-! ### Objects -/

/-- A member is read with what follows it. -/
theorem yields_member {name : String} (hx : x.IsSpelled)
    (hfuel : 6 * x.chars.length + 6 ≤ fuel) (hdepth : x.value.nesting ≤ depth)
    (hc : c.rest = Spelling.memberChars (name, x) ++ (Spelling.membersAfter members ++ rest))
    (hothers : ∀ (blank : List Char) (d : Cursor),
      (∀ ch ∈ blank, Cursor.isJsonBlank ch = true) →
      d.rest = blank ++ (Spelling.membersAfter members ++ rest) →
      (readMembers fuel depth false d).Yields Members.Shows
        (members.map fun member => (member.1, member.2.value)) rest) :
    (readMember (fuel + 1) depth c).Yields Members.Shows
      ((name, x.value) :: members.map fun member => (member.1, member.2.value)) rest := by
  rw [Spelling.memberChars, List.append_assoc, List.cons_append] at hc
  obtain ⟨d, hname, hd⟩ := readString_append hc
  have hcolon := Cursor.skipBlank_eq_self hd (by decide)
  rw [← hcolon] at hd
  obtain ⟨blank, hblank, hread⟩ :=
    hx (endsValue_membersAfter members rest) hfuel hdepth (Cursor.rest_next hd)
  have hrest := hothers blank _ hblank hread.rest
  rw [readMember_sound hname hd hread.sound]
  exact ⟨hrest.sound, ⟨rfl, hread.shown, rfl, hrest.shown⟩, hrest.next, hrest.rest⟩

/-- The rest of an object is read after a member, and after the white space that this has left. -/
theorem yields_membersAfter (hmembers : ∀ member ∈ members, member.2.IsSpelled)
    (hfuel : 6 * (Spelling.membersAfter members).length ≤ fuel)
    (hdepth : nestingOfMembers (members.map fun member => (member.1, member.2.value)) ≤ depth)
    (hblank : ∀ ch ∈ blank, Cursor.isJsonBlank ch = true)
    (hc : c.rest = blank ++ (Spelling.membersAfter members ++ rest)) :
    (readMembers fuel depth false c).Yields Members.Shows
      (members.map fun member => (member.1, member.2.value)) rest := by
  induction members generalizing fuel c blank with
  | nil =>
    rw [Spelling.membersAfter, List.length_singleton] at hfuel
    obtain ⟨fuel, rfl⟩ : ∃ k, fuel = k + 1 := ⟨fuel - 1, by omega⟩
    have hstart := skipBlank_blank hblank hc (by decide)
    rw [readMembers_close hstart]
    exact ⟨rfl, trivial, rfl, Cursor.rest_next hstart⟩
  | cons member members ih =>
    obtain ⟨name, x⟩ := member
    rw [List.forall_mem_cons] at hmembers
    rw [List.map_cons, nestingOfMembers, Nat.max_le] at hdepth
    have hpos := length_membersAfter_pos members
    simp only [Spelling.membersAfter, Spelling.memberChars, List.length_cons,
      List.length_append] at hfuel
    simp only [Spelling.membersAfter, List.cons_append, List.append_assoc] at hc
    obtain ⟨fuel, rfl⟩ : ∃ k, fuel = k + 2 := ⟨fuel - 2, by omega⟩
    have hstart := skipBlank_blank hblank hc (by decide)
    have hvalue : 6 * x.chars.length + 6 ≤ fuel := by omega
    have hnext := Cursor.rest_next hstart
    have hquote : c.skipBlank.next.skipBlank = c.skipBlank.next :=
      Cursor.skipBlank_eq_self hnext (by decide)
    rw [readMembers_comma hstart (hquote ▸ hnext), hquote]
    exact yields_member hmembers.1 hvalue hdepth.1 hnext
      fun _ d hblank hd => ih hmembers.2 (by omega) hdepth.2 hblank hd

theorem Spelling.isSpelled_object (h : ∀ member ∈ members, member.2.IsSpelled) :
    (object members).IsSpelled := by
  intro fuel depth c rest hrest hfuel hdepth hc
  refine ⟨[], nofun, ?_⟩
  rw [value_object, nesting] at hdepth
  obtain ⟨depth, rfl⟩ := Nat.exists_eq_add_one_of_ne_zero (Nat.ne_zero_of_lt hdepth)
  have hdepth' := Nat.le_of_succ_le_succ hdepth
  obtain ⟨fuel, rfl⟩ : ∃ k, fuel = k + 3 := ⟨fuel - 3, by omega⟩
  rw [value_object]
  cases members with
  | nil =>
    rw [object, List.cons_append, List.singleton_append] at hc
    have hclose : c.next.skipBlank.rest = '\x7d' :: rest := by
      rw [Cursor.skipBlank_eq_self (Cursor.rest_next hc) (by decide), Cursor.rest_next hc]
    rw [readValue_object hc, readMembers_close hclose]
    exact ⟨rfl, trivial, rfl, Cursor.rest_next hclose⟩
  | cons member members =>
    obtain ⟨name, x⟩ := member
    rw [List.forall_mem_cons] at h
    have hpos := length_membersAfter_pos members
    simp only [object, memberChars, List.length_cons, List.length_append] at hfuel
    simp only [object, List.cons_append, List.append_assoc] at hc
    rw [List.map_cons, nestingOfMembers, Nat.max_le] at hdepth'
    have hnext := Cursor.rest_next hc
    have hquote : c.next.skipBlank = c.next := Cursor.skipBlank_eq_self hnext (by decide)
    have hvalue : 6 * x.chars.length + 6 ≤ fuel := by omega
    have hread := yields_member h.1 hvalue hdepth'.1 hnext
      fun _ d hblank hd => yields_membersAfter h.2 (by omega) hdepth'.2 hblank hd
    rw [readValue_object hc, readMembers_first (hquote ▸ hnext), hquote]
    exact ⟨hread.sound, hread.shown, hread.next, hread.rest⟩

end Readers

/-! ### Whole texts -/

/-- A text that is spelled and does not nest too deep is read as a whole. -/
theorem Spelling.whole_text {x : Spelling} (h : x.IsSpelled)
    (hdepth : x.value.nesting ≤ nestingLimit) : decodeText whole x.text = .ok x.value := by
  have hstart : (Cursor.ofText x.text).rest = x.chars ++ [] := by
    rw [Cursor.ofText, text, String.toList_ofList, List.append_nil]
  have hlength : x.text.length = x.chars.length := String.length_ofList
  obtain ⟨blank, hblank, hread⟩ := h endsValue_nil (le_refl _) hdepth hstart
  rw [decodeText_eq_ok_iff, whole_eq_ok_iff]
  rw [← hlength] at hread
  refine ⟨hread.shown.json_eq, ?_⟩
  have hend : (readValue (6 * x.text.length + 6) nestingLimit
      (Cursor.ofText x.text)).stop.skipBlank.rest = [] := by
    rw [Cursor.rest_skipBlank_eq_nil_iff, hread.rest, List.append_nil]
    exact hblank
  simp only [LocatedText.ofText, hread.next, Option.bind_some, hend, List.isEmpty_nil, if_true]

/-- A text that is read as a value. -/
structure Written extends Spelling where
  read : decodeText whole (String.ofList chars) = .ok value

/-- The compact text of a value. -/
def Written.compact (j : Json) (hj : j.Whole) (hlimit : j.nesting ≤ nestingLimit) : Written where
  chars := j.compactChars
  value := j
  read := by
    obtain ⟨hshows, hsurplus⟩ := shows_ofText_compact hj hlimit
    exact decodeText_eq_ok_iff.mpr ⟨whole_eq_ok_iff.mpr hshows.json_eq, hsurplus⟩

theorem Written.isSpelled (w : Written) : w.toSpelling.IsSpelled := by
  have hspelled : Spelled (String.ofList w.chars).toList w.value := spelled_of_whole w.read
  rwa [String.toList_ofList] at hspelled

/-- What a text is read as in some form is what its value is read as. -/
theorem decodeText_inSomeForm_iff {α : Type} {type : String} {form : Json → Option α}
    {text : String} {a : α} :
    decodeText (inSomeForm type form) text = .ok a ↔
      ∃ j, decodeText whole text = .ok j ∧ form j = some a := by
  simp only [decodeText_eq_ok_iff, inSomeForm]
  cases hroot : whole (LocatedText.ofText nestingLimit text).root with
  | error p => simp
  | ok j =>
    cases hform : form j with
    | none => simp [hform]
    | some b => simp [hform, and_comm]

end Json

end DatalogClient
