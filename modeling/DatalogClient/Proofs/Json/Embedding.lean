import DatalogClient.Proofs.Json.Continuation

/-!
# Values inside longer texts

What is read without a fault is read in the same way if the text goes on, with the same value. How
deep a reader might have gone makes no difference, as long as it may go as deep as the value nests.
So a text that is read as a value is read as that value wherever it stands in other texts.

## Main definitions

* `Json.Carries` — a reader finds the same values in all longer texts
* `Json.Spelled` — characters that are read as a value wherever they stand

## Main results

* `Json.carries_read` — the readers of values, lists and objects
* `Json.spelled_of_whole` — whole texts are read in the same way inside other texts
-/

namespace DatalogClient.Json

variable {α : Type} {c longer : Cursor} {more : List Char}

/-! ### Values -/

/-- The scalar that begins by a character, if one does. -/
def scanScalar? (ch : Char) (c : Cursor) : Option (Scan Scalar) :=
  if ch = 'n' then some ((readWord ['u', 'l', 'l'] c.next).map fun d => (.null, d))
  else if ch = 't' then some ((readWord ['r', 'u', 'e'] c.next).map fun d => (.bool true, d))
  else if ch = 'f' then some ((readWord ['a', 'l', 's', 'e'] c.next).map fun d => (.bool false, d))
  else if ch = '-' then some ((readNumber true c.next).map fun (n, d) => (.num n, d))
  else if ch.isDigit then some ((readNumber false c).map fun (n, d) => (.num n, d))
  else if ch = '"' then some ((readString c.next).map fun (s, d) => (.str s, d))
  else none

theorem Extends.map {β : Type} {scan scan' : Scan α} (h : Extends more scan scan') (f : α → β) :
    Extends more (scan.map fun (a, d) => (f a, d)) (scan'.map fun (a, d) => (f a, d)) := by
  intro b d hscan
  cases scan with
  | error s => cases hscan
  | ok result =>
    obtain ⟨rfl, rfl⟩ := Prod.mk.inj (Except.ok.inj hscan)
    obtain ⟨e, rfl, he⟩ := h _ _ rfl
    exact ⟨e, rfl, he⟩

theorem word_extends (word : List Char) (value : Scalar) (h : longer.rest = c.rest ++ more) :
    Extends more ((readWord word c).map fun d => (value, d))
      ((readWord word longer).map fun d => (value, d)) := by
  intro a d hscan
  cases hread : readWord word c with
  | error s =>
    rw [hread] at hscan
    cases hscan
  | ok e =>
    rw [hread] at hscan
    obtain ⟨rfl, rfl⟩ := Prod.mk.inj (Except.ok.inj hscan)
    obtain ⟨e', he', herest⟩ := readWord_extends h hread
    exact ⟨e', by rw [he']; rfl, herest⟩

theorem scanScalar?_extends {ch : Char} {tail : List Char} {scan : Scan Scalar}
    (hmore : EndsValue more) (hrest : c.rest = ch :: tail) (h : longer.rest = c.rest ++ more)
    (hscan : scanScalar? ch c = some scan) :
    ∃ scan', scanScalar? ch longer = some scan' ∧ Extends more scan scan' := by
  have hafter := Cursor.rest_next_append h (by simp [hrest])
  rw [scanScalar?] at hscan ⊢
  split_ifs at hscan ⊢ <;> obtain rfl := Option.some.inj hscan
  · exact ⟨_, rfl, word_extends _ _ hafter⟩
  · exact ⟨_, rfl, word_extends _ _ hafter⟩
  · exact ⟨_, rfl, word_extends _ _ hafter⟩
  · exact ⟨_, rfl, (readNumber_extends hmore hafter).map _⟩
  · exact ⟨_, rfl, (readNumber_extends hmore h).map _⟩
  · exact ⟨_, rfl, (readString_extends hafter).map _⟩

section Readers

variable {τ β : Type} {fuel depth : Nat}

/-- What has been read without a fault ends where a reader gets through, and in every longer text
the value is read again, if the reader may go as deep as it nests. -/
def Carries (shows : τ → β → Prop) (nests : β → Nat) (read again : Nat → Nat → Cursor → Reading τ)
    (fuel : Nat) : Prop :=
  ∀ depth c value, (read fuel depth c).sound = true → shows (read fuel depth c).tree value →
    (read fuel depth c).next = some (read fuel depth c).stop ∧
      ∀ {more : List Char} {fuel' depth' : Nat} {longer : Cursor}, EndsValue more →
        fuel ≤ fuel' → nests value ≤ depth' → longer.rest = c.rest ++ more →
          (again fuel' depth' longer).Yields shows value ((read fuel depth c).stop.rest ++ more)

/-- Values are carried into longer texts. -/
abbrev CarriesValue : Nat → Prop := Carries Located.Shows nesting readValue readValue

/-- The rests of lists are. -/
abbrev CarriesItems (first : Bool) : Nat → Prop :=
  Carries Items.Shows nestingOfItems (readItems · · first) (readItems · · first)

/-- So are items, with the rests of their lists. -/
abbrev CarriesItem (surplus surplus' : Fault) : Nat → Prop :=
  Carries Items.Shows nestingOfItems (readItem · · surplus) (readItem · · surplus')

/-- The rests of objects are. -/
abbrev CarriesMembers (first : Bool) : Nat → Prop :=
  Carries Members.Shows nestingOfMembers (readMembers · · first) (readMembers · · first)

/-- So are members, with the rests of their objects. -/
abbrev CarriesMember : Nat → Prop :=
  Carries Members.Shows nestingOfMembers readMember readMember

theorem readValue_scalar {ch : Char} {tail : List Char} {scan : Scan Scalar}
    (h : c.rest = ch :: tail) (hblank : Cursor.isJsonBlank ch = false)
    (hscan : scanScalar? ch c = some scan) :
    readValue (fuel + 1) depth c = scalarReading c scan := by
  rw [scanScalar?] at hscan
  rw [readValue.eq_def]
  simp only [Cursor.skipBlank_eq_self h hblank, h]
  split_ifs at hscan ⊢ <;> rw [← Option.some.inj hscan]

/-- What is read without a fault is a scalar or a container, and then it may be opened. -/
theorem begins_of_sound {ch : Char} {tail : List Char} (h : c.rest = ch :: tail)
    (hblank : Cursor.isJsonBlank ch = false)
    (hsound : (readValue (fuel + 1) depth c).sound = true) :
    (∃ scan, scanScalar? ch c = some scan) ∨ (ch = '[' ∧ ∃ k, depth = k + 1) ∨
      (ch = '\x7b' ∧ ∃ k, depth = k + 1) := by
  rw [scanScalar?]
  rw [readValue.eq_def] at hsound
  simp only [Cursor.skipBlank_eq_self h hblank, h] at hsound
  split_ifs at hsound ⊢ with _ _ _ _ _ _ hlist hobject
  any_goals exact .inl ⟨_, rfl⟩
  · cases depth with
    | zero => cases hsound
    | succ depth => exact .inr (.inl ⟨hlist, depth, rfl⟩)
  · cases depth with
    | zero => cases hsound
    | succ depth => exact .inr (.inr ⟨hobject, depth, rfl⟩)
  · cases hsound

/-- White space before a value makes no difference. -/
theorem readValue_skipBlank (c : Cursor) :
    readValue (fuel + 1) depth c.skipBlank = readValue (fuel + 1) depth c := by
  rw [readValue.eq_def, readValue.eq_def]
  simp only [Cursor.skipBlank_skipBlank]

/-- A scalar is carried if its text is. -/
theorem carries_scalarReading {scan : Scan Scalar} {j : Json}
    (hsound : (scalarReading c scan).sound = true)
    (hshows : (scalarReading c scan).tree.Shows j) :
    (scalarReading c scan).next = some (scalarReading c scan).stop ∧
      ∀ {more : List Char} {longer : Cursor} {scan' : Scan Scalar}, Extends more scan scan' →
        (scalarReading longer scan').Yields Located.Shows j
          ((scalarReading c scan).stop.rest ++ more) := by
  cases scan with
  | error s => cases hsound
  | ok result =>
    obtain ⟨value, d⟩ := result
    refine ⟨rfl, fun hextends => ?_⟩
    obtain ⟨e, rfl, he⟩ := hextends value d rfl
    exact ⟨rfl, hshows, rfl, he⟩

/-- A value that begins at once is carried, whatever it is. -/
theorem carries_at_start (hitems : CarriesItems true fuel) (hmembers : CarriesMembers true fuel)
    {ch : Char} {tail : List Char} {j : Json} (hrest : c.rest = ch :: tail)
    (hblank : Cursor.isJsonBlank ch = false) (hsound : (readValue (fuel + 1) depth c).sound = true)
    (hshows : (readValue (fuel + 1) depth c).tree.Shows j) :
    (readValue (fuel + 1) depth c).next = some (readValue (fuel + 1) depth c).stop ∧
      ∀ {more : List Char} {fuel' depth' : Nat} {longer : Cursor}, EndsValue more →
        fuel ≤ fuel' → j.nesting ≤ depth' → longer.rest = c.rest ++ more →
          (readValue (fuel' + 1) depth' longer).Yields Located.Shows j
            ((readValue (fuel + 1) depth c).stop.rest ++ more) := by
  obtain ⟨scan, hscan⟩ | ⟨rfl, depth, rfl⟩ | ⟨rfl, depth, rfl⟩ :=
    begins_of_sound hrest hblank hsound
  · rw [readValue_scalar hrest hblank hscan] at hsound hshows ⊢
    obtain ⟨hnext, hcarries⟩ := carries_scalarReading hsound hshows
    refine ⟨hnext, ?_⟩
    intro more fuel' depth' longer hmore _ _ hlonger
    obtain ⟨scan', hscan', hextends⟩ := scanScalar?_extends hmore hrest hlonger hscan
    rw [hrest, List.cons_append] at hlonger
    rw [readValue_scalar hlonger hblank hscan']
    exact hcarries hextends
  · rw [readValue_list hrest] at hsound hshows ⊢
    obtain ⟨items, rfl, hshown⟩ := Located.shows_list_iff.mp hshows
    obtain ⟨hnext, hcarries⟩ := hitems depth c.next items hsound hshown
    refine ⟨hnext, ?_⟩
    intro more fuel' depth' longer hmore hfuel hdepth hlonger
    obtain ⟨depth', rfl⟩ := Nat.exists_eq_add_one_of_ne_zero (Nat.ne_zero_of_lt hdepth)
    have hread := hcarries hmore hfuel (Nat.le_of_succ_le_succ hdepth)
      (Cursor.rest_next_append hlonger (by simp [hrest]))
    rw [hrest, List.cons_append] at hlonger
    rw [readValue_list hlonger]
    exact ⟨hread.sound, hread.shown, hread.next, hread.rest⟩
  · rw [readValue_object hrest] at hsound hshows ⊢
    obtain ⟨members, rfl, hshown⟩ := Located.shows_object_iff.mp hshows
    obtain ⟨hnext, hcarries⟩ := hmembers depth c.next members hsound hshown
    refine ⟨hnext, ?_⟩
    intro more fuel' depth' longer hmore hfuel hdepth hlonger
    obtain ⟨depth', rfl⟩ := Nat.exists_eq_add_one_of_ne_zero (Nat.ne_zero_of_lt hdepth)
    have hread := hcarries hmore hfuel (Nat.le_of_succ_le_succ hdepth)
      (Cursor.rest_next_append hlonger (by simp [hrest]))
    rw [hrest, List.cons_append] at hlonger
    rw [readValue_object hlonger]
    exact ⟨hread.sound, hread.shown, hread.next, hread.rest⟩

theorem carriesValue_succ (hitems : CarriesItems true fuel) (hmembers : CarriesMembers true fuel) :
    CarriesValue (fuel + 1) := by
  intro depth c j hsound hshows
  -- Reading begins behind the white space, which both texts have before the value.
  cases hrest : c.skipBlank.rest with
  | nil =>
    rw [readValue.eq_def] at hsound
    simp only [hrest] at hsound
    cases hsound
  | cons ch tail =>
    rw [← readValue_skipBlank] at hsound hshows ⊢
    obtain ⟨hnext, hcarries⟩ := carries_at_start hitems hmembers hrest
      (Cursor.isJsonBlank_head_skipBlank hrest) hsound hshows
    refine ⟨hnext, ?_⟩
    intro more fuel' depth' longer hmore hfuel hdepth hlonger
    obtain ⟨fuel', rfl⟩ := Nat.exists_eq_add_one_of_ne_zero (Nat.ne_zero_of_lt hfuel)
    rw [← readValue_skipBlank longer]
    exact hcarries hmore (Nat.le_of_succ_le_succ hfuel) hdepth
      (Cursor.rest_skipBlank_append hlonger (by simp [hrest]))

/-! ### Lists -/

variable {first : Bool} {ch : Char} {tail tail' : List Char}

theorem readItems_close (h : c.skipBlank.rest = ']' :: tail) :
    readItems (fuel + 1) depth first c =
      ⟨.close (some c.skipBlank.next.place), c.skipBlank.next, some c.skipBlank.next, true⟩ := by
  rw [readItems.eq_def]
  simp only [h, if_true]

theorem readItems_first (h : c.skipBlank.rest = ch :: tail) (hch : ch ≠ ']') :
    readItems (fuel + 1) depth true c =
      readItem fuel depth ⟨.textAfterEnd, c.skipBlank.ahead⟩ c.skipBlank := by
  rw [readItems.eq_def]
  simp only [h, if_neg hch, if_true]

theorem readItems_comma (h : c.skipBlank.rest = ',' :: tail)
    (hnext : c.skipBlank.next.skipBlank.rest = ch :: tail') (hch : ch ≠ ']') :
    readItems (fuel + 1) depth false c =
      readItem fuel depth ⟨.textAfterEnd, c.skipBlank.next.skipBlank.ahead⟩
        c.skipBlank.next.skipBlank := by
  rw [readItems.eq_def]
  simp only [h, hnext, show ¬ ',' = ']' by decide, if_false, Bool.false_eq_true, if_true]
  split
  · rename_i heq
    cases heq
  · rename_i heq
    exact absurd (List.cons.inj heq).1 hch
  · rfl

/-- Where no fault is met in a list comes its end, or an item, after a comma unless it is the
first. -/
theorem items_begin_of_sound (hsound : (readItems (fuel + 1) depth first c).sound = true) :
    (∃ tail, c.skipBlank.rest = ']' :: tail) ∨
      (first = true ∧ ∃ ch tail, c.skipBlank.rest = ch :: tail ∧ ch ≠ ']') ∨
      (first = false ∧ ∃ tail ch tail', c.skipBlank.rest = ',' :: tail ∧
        c.skipBlank.next.skipBlank.rest = ch :: tail' ∧ ch ≠ ']') := by
  rw [readItems.eq_def] at hsound
  cases hrest : c.skipBlank.rest with
  | nil =>
    simp only [hrest] at hsound
    cases hsound
  | cons ch tail =>
    simp only [hrest] at hsound
    split_ifs at hsound with hclose hfirst hcomma
    · exact .inl ⟨tail, by rw [hclose]⟩
    · exact .inr (.inl ⟨hfirst, ch, tail, rfl, hclose⟩)
    · split at hsound
      · cases hsound
      · cases hsound
      · rename_i hempty hclose'
        cases hnext : c.skipBlank.next.skipBlank.rest with
        | nil => exact absurd hnext hempty
        | cons ch' tail' =>
          rw [Bool.not_eq_true] at hfirst
          refine .inr (.inr ⟨hfirst, tail, ch', tail', by rw [hcomma], rfl, ?_⟩)
          rintro rfl
          exact hclose' tail' hnext
    · cases hsound

theorem carriesItems_succ (hitem : ∀ surplus surplus', CarriesItem surplus surplus' fuel)
    (first : Bool) : CarriesItems first (fuel + 1) := by
  intro depth c items hsound hshows
  obtain ⟨tail, hrest⟩ | ⟨rfl, ch, tail, hrest, hch⟩ | ⟨rfl, tail, ch, tail', hrest, hnext, hch⟩ :=
    items_begin_of_sound hsound
  · simp only [readItems_close hrest] at hshows ⊢
    refine ⟨trivial, ?_⟩
    intro more fuel' depth' longer hmore hfuel _ hlonger
    obtain ⟨fuel', rfl⟩ := Nat.exists_eq_add_one_of_ne_zero (Nat.ne_zero_of_lt hfuel)
    have hstart := Cursor.rest_skipBlank_append hlonger (by simp [hrest])
    have hafter := Cursor.rest_next_append hstart (by simp [hrest])
    rw [hrest, List.cons_append] at hstart
    rw [readItems_close hstart]
    exact ⟨rfl, by cases items <;> exact hshows, rfl, hafter⟩
  · simp only [readItems_first hrest hch] at hsound hshows ⊢
    refine ⟨(hitem _ ⟨.textAfterEnd, c.place⟩ depth _ items hsound hshows).1, ?_⟩
    intro more fuel' depth' longer hmore hfuel hdepth hlonger
    obtain ⟨fuel', rfl⟩ := Nat.exists_eq_add_one_of_ne_zero (Nat.ne_zero_of_lt hfuel)
    have hstart := Cursor.rest_skipBlank_append hlonger (by simp [hrest])
    have hstart' := hstart
    rw [hrest, List.cons_append] at hstart'
    rw [readItems_first hstart' hch]
    exact (hitem _ _ depth _ items hsound hshows).2 hmore (Nat.le_of_succ_le_succ hfuel) hdepth
      hstart
  · simp only [readItems_comma hrest hnext hch] at hsound hshows ⊢
    refine ⟨(hitem _ ⟨.textAfterEnd, c.place⟩ depth _ items hsound hshows).1, ?_⟩
    intro more fuel' depth' longer hmore hfuel hdepth hlonger
    obtain ⟨fuel', rfl⟩ := Nat.exists_eq_add_one_of_ne_zero (Nat.ne_zero_of_lt hfuel)
    have hstart := Cursor.rest_skipBlank_append hlonger (by simp [hrest])
    have hitemStart := Cursor.rest_skipBlank_append
      (Cursor.rest_next_append hstart (by simp [hrest])) (by simp [hnext])
    have hitemStart' := hitemStart
    rw [hrest, List.cons_append] at hstart
    rw [hnext, List.cons_append] at hitemStart'
    rw [readItems_comma hstart hitemStart' hch]
    exact (hitem _ _ depth _ items hsound hshows).2 hmore (Nat.le_of_succ_le_succ hfuel) hdepth
      hitemStart

theorem readItem_next {surplus : Fault} {d : Cursor} (h : (readValue fuel depth c).next = some d) :
    readItem (fuel + 1) depth surplus c =
      ⟨.item surplus.problem (readValue fuel depth c).tree
          (some (leaveList (readValue fuel depth c).stop).place)
          (readItems fuel depth false d).tree,
        if (readValue fuel depth c).sound then (readItems fuel depth false d).stop
          else leaveList (readValue fuel depth c).stop,
        (readItems fuel depth false d).next,
        (readValue fuel depth c).sound && (readItems fuel depth false d).sound⟩ := by
  rw [readItem.eq_def]
  simp only [h]

theorem carriesItem_succ (hvalue : CarriesValue fuel) (hitems : CarriesItems false fuel)
    (surplus surplus' : Fault) : CarriesItem surplus surplus' (fuel + 1) := by
  intro depth c items hsound hshows
  cases hnext : (readValue fuel depth c).next with
  | none =>
    beta_reduce at hsound
    rw [readItem.eq_def] at hsound
    simp only [hnext] at hsound
    cases hsound
  | some d =>
    simp only [readItem_next hnext] at hsound hshows ⊢
    rw [Bool.and_eq_true] at hsound
    obtain ⟨hvalueSound, hitemsSound⟩ := hsound
    cases items with
    | nil => exact hshows.elim
    | cons j others =>
      obtain ⟨hj, hothers⟩ := hshows
      obtain ⟨hstop, hvalueCarries⟩ := hvalue depth c j hvalueSound hj
      obtain rfl : d = (readValue fuel depth c).stop := Option.some.inj (hnext.symm.trans hstop)
      obtain ⟨hnext', hitemsCarries⟩ := hitems depth _ others hitemsSound hothers
      simp only [hvalueSound, if_true]
      refine ⟨hnext', ?_⟩
      intro more fuel' depth' longer hmore hfuel hdepth hlonger
      obtain ⟨fuel', rfl⟩ := Nat.exists_eq_add_one_of_ne_zero (Nat.ne_zero_of_lt hfuel)
      have hfuel' := Nat.le_of_succ_le_succ hfuel
      rw [nestingOfItems, Nat.max_le] at hdepth
      have hfirst := hvalueCarries hmore hfuel' hdepth.1 hlonger
      have hrest := hitemsCarries hmore hfuel' hdepth.2 hfirst.rest
      simp only [readItem_next hfirst.next, hfirst.sound, if_true, Bool.true_and]
      exact ⟨hrest.sound, ⟨hfirst.shown, hrest.shown⟩, hrest.next, hrest.rest⟩

/-! ### Objects -/

theorem readMembers_close (h : c.skipBlank.rest = '\x7d' :: tail) :
    readMembers (fuel + 1) depth first c =
      ⟨.close (some c.skipBlank.next.place), c.skipBlank.next, some c.skipBlank.next, true⟩ := by
  rw [readMembers.eq_def]
  simp only [h, if_true]

theorem readMembers_first (h : c.skipBlank.rest = '"' :: tail) :
    readMembers (fuel + 1) depth true c = readMember fuel depth c.skipBlank := by
  rw [readMembers.eq_def]
  simp [h]

theorem readMembers_comma (h : c.skipBlank.rest = ',' :: tail)
    (hnext : c.skipBlank.next.skipBlank.rest = '"' :: tail') :
    readMembers (fuel + 1) depth false c = readMember fuel depth c.skipBlank.next.skipBlank := by
  rw [readMembers.eq_def]
  simp [h, hnext]

/-- Where no fault is met in an object comes its end, or a member, after a comma unless it is the
first. -/
theorem members_begin_of_sound (hsound : (readMembers (fuel + 1) depth first c).sound = true) :
    (∃ tail, c.skipBlank.rest = '\x7d' :: tail) ∨
      (first = true ∧ ∃ tail, c.skipBlank.rest = '"' :: tail) ∨
      (first = false ∧ ∃ tail tail', c.skipBlank.rest = ',' :: tail ∧
        c.skipBlank.next.skipBlank.rest = '"' :: tail') := by
  rw [readMembers.eq_def] at hsound
  cases hrest : c.skipBlank.rest with
  | nil =>
    simp only [hrest] at hsound
    cases hsound
  | cons ch tail =>
    simp only [hrest] at hsound
    split_ifs at hsound with hclose hfirst hquote hcomma
    · exact .inl ⟨tail, by rw [hclose]⟩
    · exact .inr (.inl ⟨hfirst, tail, by rw [hquote]⟩)
    · cases hsound
    · split at hsound
      · cases hsound
      · rename_i tail' hnext
        exact .inr (.inr ⟨Bool.not_eq_true _ ▸ hfirst, tail, tail', by rw [hcomma], hnext⟩)
      · cases hsound
      · cases hsound
    · cases hsound

theorem carriesMembers_succ (hmember : CarriesMember fuel) (first : Bool) :
    CarriesMembers first (fuel + 1) := by
  intro depth c members hsound hshows
  obtain ⟨tail, hrest⟩ | ⟨rfl, tail, hrest⟩ | ⟨rfl, tail, tail', hrest, hnext⟩ :=
    members_begin_of_sound hsound
  · simp only [readMembers_close hrest] at hshows ⊢
    refine ⟨trivial, ?_⟩
    intro more fuel' depth' longer hmore hfuel _ hlonger
    obtain ⟨fuel', rfl⟩ := Nat.exists_eq_add_one_of_ne_zero (Nat.ne_zero_of_lt hfuel)
    have hstart := Cursor.rest_skipBlank_append hlonger (by simp [hrest])
    have hafter := Cursor.rest_next_append hstart (by simp [hrest])
    rw [hrest, List.cons_append] at hstart
    rw [readMembers_close hstart]
    exact ⟨rfl, by cases members <;> exact hshows, rfl, hafter⟩
  · simp only [readMembers_first hrest] at hsound hshows ⊢
    obtain ⟨hstop, hcarries⟩ := hmember depth _ members hsound hshows
    refine ⟨hstop, ?_⟩
    intro more fuel' depth' longer hmore hfuel hdepth hlonger
    obtain ⟨fuel', rfl⟩ := Nat.exists_eq_add_one_of_ne_zero (Nat.ne_zero_of_lt hfuel)
    have hstart := Cursor.rest_skipBlank_append hlonger (by simp [hrest])
    have hstart' := hstart
    rw [hrest, List.cons_append] at hstart'
    rw [readMembers_first hstart']
    exact hcarries hmore (Nat.le_of_succ_le_succ hfuel) hdepth hstart
  · simp only [readMembers_comma hrest hnext] at hsound hshows ⊢
    obtain ⟨hstop, hcarries⟩ := hmember depth _ members hsound hshows
    refine ⟨hstop, ?_⟩
    intro more fuel' depth' longer hmore hfuel hdepth hlonger
    obtain ⟨fuel', rfl⟩ := Nat.exists_eq_add_one_of_ne_zero (Nat.ne_zero_of_lt hfuel)
    have hstart := Cursor.rest_skipBlank_append hlonger (by simp [hrest])
    have hmemberStart := Cursor.rest_skipBlank_append
      (Cursor.rest_next_append hstart (by simp [hrest])) (by simp [hnext])
    have hmemberStart' := hmemberStart
    rw [hrest, List.cons_append] at hstart
    rw [hnext, List.cons_append] at hmemberStart'
    rw [readMembers_comma hstart hmemberStart']
    exact hcarries hmore (Nat.le_of_succ_le_succ hfuel) hdepth hmemberStart

theorem readMember_sound {name : String} {d : Cursor} (hname : readString c.next = .ok (name, d))
    (hcolon : d.skipBlank.rest = ':' :: tail)
    (hvalue : (readValue fuel depth d.skipBlank.next).sound = true) :
    readMember (fuel + 1) depth c =
      ⟨.member name (some d.place) (some (leaveObject d).place)
          (readValue fuel depth d.skipBlank.next).tree none
          (some (leaveObject (readValue fuel depth d.skipBlank.next).stop).place)
          (readMembers fuel depth false (readValue fuel depth d.skipBlank.next).stop).tree,
        (readMembers fuel depth false (readValue fuel depth d.skipBlank.next).stop).stop,
        (readMembers fuel depth false (readValue fuel depth d.skipBlank.next).stop).next,
        (readMembers fuel depth false (readValue fuel depth d.skipBlank.next).stop).sound⟩ := by
  rw [readMember.eq_def]
  simp only [hname, hcolon, hvalue, if_true]

/-- Where no fault is met in a member there is a name, a colon and a value without a fault. -/
theorem member_begins_of_sound (hsound : (readMember (fuel + 1) depth c).sound = true) :
    ∃ name d tail, readString c.next = .ok (name, d) ∧ d.skipBlank.rest = ':' :: tail ∧
      (readValue fuel depth d.skipBlank.next).sound = true := by
  rw [readMember.eq_def] at hsound
  cases hname : readString c.next with
  | error s =>
    simp only [hname] at hsound
    cases hsound
  | ok result =>
    obtain ⟨name, d⟩ := result
    simp only [hname] at hsound
    split at hsound
    · rename_i tail hcolon
      split_ifs at hsound with hvalue
      · exact ⟨name, d, tail, rfl, hcolon, hvalue⟩
      · split at hsound <;> cases hsound
    · cases hsound
    · cases hsound

theorem carriesMember_succ (hvalue : CarriesValue fuel) (hmembers : CarriesMembers false fuel) :
    CarriesMember (fuel + 1) := by
  intro depth c members hsound hshows
  obtain ⟨name, d, tail, hname, hcolon, hvalueSound⟩ := member_begins_of_sound hsound
  rw [readMember_sound hname hcolon hvalueSound] at hsound hshows ⊢
  cases members with
  | nil => exact hshows.elim
  | cons member others =>
    obtain ⟨rfl, hj, -, hothers⟩ := hshows
    obtain ⟨-, hvalueCarries⟩ := hvalue depth _ member.2 hvalueSound hj
    obtain ⟨hnext, hmembersCarries⟩ := hmembers depth _ others hsound hothers
    refine ⟨hnext, ?_⟩
    intro more fuel' depth' longer hmore hfuel hdepth hlonger
    obtain ⟨fuel', rfl⟩ := Nat.exists_eq_add_one_of_ne_zero (Nat.ne_zero_of_lt hfuel)
    have hfuel' := Nat.le_of_succ_le_succ hfuel
    have hquote : c.rest ≠ [] := by
      intro hempty
      have hend : c.next = c := by rw [Cursor.next, hempty]
      simp [readString, readStringFrom, hend, hempty] at hname
    obtain ⟨e, hname', he⟩ :=
      readString_extends (Cursor.rest_next_append hlonger hquote) _ _ hname
    have hstart := Cursor.rest_skipBlank_append he (by simp [hcolon])
    have hafter := Cursor.rest_next_append hstart (by simp [hcolon])
    rw [hcolon, List.cons_append] at hstart
    rw [nestingOfMembers, Nat.max_le] at hdepth
    have hfirst := hvalueCarries hmore hfuel' hdepth.1 hafter
    have hrest := hmembersCarries hmore hfuel' hdepth.2 hfirst.rest
    rw [readMember_sound hname' hstart hfirst.sound]
    exact ⟨hrest.sound, ⟨rfl, hfirst.shown, rfl, hrest.shown⟩, hrest.next, hrest.rest⟩

/-- The readers find the same in every longer text. -/
theorem carries_read (fuel : Nat) :
    CarriesValue fuel ∧ (∀ first, CarriesItems first fuel) ∧
      (∀ surplus surplus', CarriesItem surplus surplus' fuel) ∧
      (∀ first, CarriesMembers first fuel) ∧ CarriesMember fuel := by
  induction fuel with
  | zero =>
    -- Without fuel nothing is read.
    refine ⟨fun _ _ _ h => ?_, fun _ _ _ _ h => ?_, fun _ _ _ _ _ h => ?_, fun _ _ _ _ h => ?_,
      fun _ _ _ h => ?_⟩
    · rw [readValue] at h
      cases h
    · beta_reduce at h
      rw [readItems] at h
      cases h
    · beta_reduce at h
      rw [readItem] at h
      cases h
    · beta_reduce at h
      rw [readMembers] at h
      cases h
    · rw [readMember] at h
      cases h
  | succ fuel ih =>
    obtain ⟨hvalue, hitems, hitem, hmembers, hmember⟩ := ih
    exact ⟨carriesValue_succ (hitems true) (hmembers true), carriesItems_succ hitem,
      carriesItem_succ hvalue (hitems false), carriesMembers_succ hmember,
      carriesMember_succ hvalue (hmembers false)⟩

end Readers

/-! ### Texts inside texts -/

/-- The characters are read as the value wherever they stand, if there may be as many containers
as it needs; white space may be left. -/
def Spelled (chars : List Char) (j : Json) : Prop :=
  ∀ ⦃fuel depth : Nat⦄ ⦃c : Cursor⦄ ⦃rest : List Char⦄, EndsValue rest →
    6 * chars.length + 6 ≤ fuel → j.nesting ≤ depth → c.rest = chars ++ rest →
      ∃ blank, (∀ ch ∈ blank, Cursor.isJsonBlank ch = true) ∧
        (readValue fuel depth c).Yields Located.Shows j (blank ++ rest)

theorem whole_eq_ok_iff {t : Located} {j : Json} : whole t = .ok j ↔ t.json = .ok j := by
  rw [whole]
  cases t.json <;> simp

/-- What is read from a text as a whole is read wherever the text stands. -/
theorem spelled_of_whole {text : String} {j : Json} (h : decodeText whole text = .ok j) :
    Spelled text.toList j := by
  obtain ⟨hroot, hsurplus⟩ := decodeText_eq_ok_iff.mp h
  have hjson : (LocatedText.ofText nestingLimit text).root.json = .ok j := whole_eq_ok_iff.mp hroot
  have hshows := shows_of_json hjson
  have hsound : (readValue (6 * text.length + 6) nestingLimit (Cursor.ofText text)).sound =
      true := by
    obtain ⟨hsound, -⟩ | ⟨-, fault, hfault⟩ :=
      (faithful_read (6 * text.length + 6)).1 nestingLimit (Cursor.ofText text)
    · exact hsound
    · cases hjson.symm.trans hfault
  obtain ⟨hnext, hcarries⟩ := (carries_read (6 * text.length + 6)).1 nestingLimit
    (Cursor.ofText text) j hsound hshows
  -- Nothing but white space is left of a text that is read as a whole.
  have hblank : (readValue (6 * text.length + 6) nestingLimit
      (Cursor.ofText text)).stop.skipBlank.rest = [] := by
    by_contra hne
    simp [LocatedText.ofText, hnext, hne] at hsurplus
  intro fuel depth c rest hrest hfuel hdepth hc
  exact ⟨_, Cursor.rest_skipBlank_eq_nil_iff.mp hblank, hcarries hrest hfuel hdepth hc⟩

end DatalogClient.Json
