import DatalogClient.Json.Reader
import DatalogClient.Proofs.Json.Names
import DatalogClient.Proofs.Json.Places

/-!
# Texts without faults

The reader keeps account of whether it met a fault. Where it met none the tree that it has read is
that of a value, and where it met one the tree has no value. So a text has a value just if it was
read without a fault, and an indifferent decoder reads from such a text what it reads from the
value.

## Main definitions

* `Json.Reading.Faithful` — the account of a reading is right

## Main results

* `Json.faithful_readValue` — every reading keeps its account
* `Json.shows_of_whole` — the tree of a text that has a value shows it
* `Json.toOption_decodeText` — an indifferent decoder reads the same from a text and its value
-/

namespace DatalogClient

namespace Json

/-- Either there was no fault, the tree shows a value and the reader got through; or there was
one, and the tree has it for its value. -/
def Reading.Faithful {τ β : Type} (shows : τ → β → Prop) (json : τ → Except Fault β)
    (r : Reading τ) : Prop :=
  (r.sound = true ∧ (∃ value, shows r.tree value) ∧ ∃ c, r.next = some c) ∨
    (r.sound = false ∧ ∃ fault, json r.tree = .error fault)

/-- A value is read as the account says. -/
abbrev FaithfulValue : Reading Located → Prop := Reading.Faithful Located.Shows Located.json

/-- The rest of a list is read as the account says. -/
abbrev FaithfulItems : Reading Items → Prop := Reading.Faithful Items.Shows Items.json

/-- The rest of an object is read as the account says. -/
abbrev FaithfulMembers : Reading Members → Prop := Reading.Faithful Members.Shows Members.json

section Steps

variable {fuel depth : Nat}

theorem faithful_brokenValue (s : Stop) (asName : Fault) : FaithfulValue (brokenValue s asName) :=
  .inr ⟨rfl, _, rfl⟩

theorem faithful_brokenItems (s : Stop) (surplus : Fault) :
    FaithfulItems (brokenItems s surplus) := .inr ⟨rfl, _, rfl⟩

theorem faithful_brokenMembers (s : Stop) (asName : Problem) :
    FaithfulMembers (brokenMembers s asName) := .inr ⟨rfl, _, rfl⟩

theorem faithful_scalarReading (start : Cursor) (scan : Scan Scalar) :
    FaithfulValue (scalarReading start scan) := by
  cases scan with
  | ok result => exact .inl ⟨rfl, ⟨_, rfl⟩, _, rfl⟩
  | error s => exact faithful_brokenValue _ _

/-- A list keeps the account of its items. -/
theorem faithful_list {r : Reading Items} (h : FaithfulItems r) (start : Option Place) :
    FaithfulValue ⟨.list start r.tree, r.stop, r.next, r.sound⟩ := by
  obtain ⟨hsound, ⟨values, hvalues⟩, hnext⟩ | ⟨hsound, fault, hfault⟩ := h
  · exact .inl ⟨hsound, ⟨.arr values, hvalues⟩, hnext⟩
  · exact .inr ⟨hsound, fault, by rw [Located.json, hfault]; rfl⟩

/-- An object keeps the account of its members. -/
theorem faithful_object {r : Reading Members} (h : FaithfulMembers r) (start : Option Place) :
    FaithfulValue ⟨.object start r.tree, r.stop, r.next, r.sound⟩ := by
  obtain ⟨hsound, ⟨entries, hentries⟩, hnext⟩ | ⟨hsound, fault, hfault⟩ := h
  · exact .inl ⟨hsound, ⟨.obj entries, hentries⟩, hnext⟩
  · exact .inr ⟨hsound, fault, by rw [Located.json, hfault]; rfl⟩

/-! ### One step -/

theorem faithful_readValue_succ
    (hitems : ∀ depth first c, FaithfulItems (readItems fuel depth first c))
    (hmembers : ∀ depth first c, FaithfulMembers (readMembers fuel depth first c)) (c : Cursor) :
    FaithfulValue (readValue (fuel + 1) depth c) := by
  rw [readValue.eq_def]
  simp only []
  split
  · exact faithful_brokenValue _ _
  · split_ifs
    any_goals exact faithful_scalarReading _ _
    -- Two brackets are left, each of which may be one too many, and what begins no value.
    · cases depth with
      | zero => exact faithful_brokenValue _ _
      | succ depth => exact faithful_list (hitems depth true _) _
    · cases depth with
      | zero => exact faithful_brokenValue _ _
      | succ depth => exact faithful_object (hmembers depth true _) _
    · exact faithful_brokenValue _ _

theorem faithful_readItems_succ (hitem : ∀ surplus c, FaithfulItems (readItem fuel depth surplus c))
    (first : Bool) (c : Cursor) : FaithfulItems (readItems (fuel + 1) depth first c) := by
  rw [readItems.eq_def]
  simp only []
  split
  · exact faithful_brokenItems _ _
  · split_ifs
    · exact .inl ⟨rfl, ⟨[], True.intro⟩, _, rfl⟩
    · exact hitem _ _
    · split
      · exact faithful_brokenItems _ _
      · exact faithful_brokenItems _ _
      · exact hitem _ _
    · exact faithful_brokenItems _ _

theorem faithful_readItem_succ (hvalue : ∀ c, FaithfulValue (readValue fuel depth c))
    (hitems : ∀ c, FaithfulItems (readItems fuel depth false c)) (surplus : Fault) (c : Cursor) :
    FaithfulItems (readItem (fuel + 1) depth surplus c) := by
  rw [readItem.eq_def]
  simp only []
  obtain ⟨hsound, ⟨j, hj⟩, d, hnext⟩ | ⟨hsound, fault, hfault⟩ := hvalue c
  -- Behind a sound item the account is that of the rest, behind a fault the rest does not matter.
  · obtain ⟨hsound', ⟨values, hvalues⟩, hnext'⟩ | ⟨hsound', fault, hfault⟩ := hitems d
    · simp only [hnext]
      exact .inl ⟨by rw [hsound, hsound']; rfl, ⟨j :: values, hj, hvalues⟩, hnext'⟩
    · simp only [hnext]
      refine .inr ⟨by rw [hsound, hsound']; rfl, fault, ?_⟩
      simp only [Items.json, hj.json_eq, hfault, Except.map]
  · cases (readValue fuel depth c).next with
    | none => exact .inr ⟨rfl, fault, by simp only [Items.json, hfault]⟩
    | some d => exact .inr ⟨by rw [hsound]; rfl, fault, by simp only [Items.json, hfault]⟩

theorem faithful_readMembers_succ (hmember : ∀ c, FaithfulMembers (readMember fuel depth c))
    (first : Bool) (c : Cursor) : FaithfulMembers (readMembers (fuel + 1) depth first c) := by
  rw [readMembers.eq_def]
  simp only []
  split
  · exact faithful_brokenMembers _ _
  · split_ifs
    · exact .inl ⟨rfl, ⟨[], True.intro⟩, _, rfl⟩
    · exact hmember _
    · exact faithful_brokenMembers _ _
    · split
      · exact faithful_brokenMembers _ _
      · exact hmember _
      · exact faithful_brokenMembers _ _
      · exact faithful_brokenMembers _ _
    · exact faithful_brokenMembers _ _

theorem faithful_readMember_succ (hvalue : ∀ c, FaithfulValue (readValue fuel depth c))
    (hmembers : ∀ c, FaithfulMembers (readMembers fuel depth false c)) (c : Cursor) :
    FaithfulMembers (readMember (fuel + 1) depth c) := by
  rw [readMember.eq_def]
  simp only []
  split
  · exact faithful_brokenMembers _ _
  · rename_i name d _
    split
    · rename_i e _
      obtain ⟨hsound, ⟨j, hj⟩, -⟩ | ⟨hsound, fault, hfault⟩ := hvalue d.skipBlank.next
      · rw [if_pos hsound]
        obtain ⟨hsound', ⟨entries, hentries⟩, hnext⟩ | ⟨hsound', fault, hfault⟩ :=
          hmembers (readValue fuel depth d.skipBlank.next).stop
        · exact .inl ⟨hsound', ⟨(name, j) :: entries, rfl, hj, rfl, hentries⟩, hnext⟩
        · refine .inr ⟨hsound', fault, ?_⟩
          simp only [Members.json, hj.json_eq, hfault, Except.map]
      · rw [if_neg (by rw [hsound]; exact Bool.false_ne_true)]
        -- A value that cannot be read may be passed over, but it has no value.
        split
        · exact .inr ⟨rfl, fault, by simp only [Members.json, hfault]⟩
        · exact .inr ⟨rfl, fault, by simp only [Members.json, hfault]⟩
    · exact .inr ⟨rfl, _, rfl⟩
    · exact .inr ⟨rfl, _, rfl⟩

end Steps

/-- Every reading is as its account says. -/
theorem faithful_read (fuel : Nat) :
    (∀ depth c, FaithfulValue (readValue fuel depth c)) ∧
      (∀ depth first c, FaithfulItems (readItems fuel depth first c)) ∧
      (∀ depth surplus c, FaithfulItems (readItem fuel depth surplus c)) ∧
      (∀ depth first c, FaithfulMembers (readMembers fuel depth first c)) ∧
      ∀ depth c, FaithfulMembers (readMember fuel depth c) := by
  -- The five readers call each other with less fuel only.
  induction fuel with
  | zero =>
    refine ⟨fun _ _ => ?_, fun _ _ _ => ?_, fun _ _ _ => ?_, fun _ _ _ => ?_, fun _ _ => ?_⟩
    · rw [readValue]
      exact faithful_brokenValue _ _
    · rw [readItems]
      exact faithful_brokenItems _ _
    · rw [readItem]
      exact faithful_brokenItems _ _
    · rw [readMembers]
      exact faithful_brokenMembers _ _
    · rw [readMember]
      exact faithful_brokenMembers _ _
  | succ fuel ih =>
    obtain ⟨hvalue, hitems, hitem, hmembers, hmember⟩ := ih
    exact ⟨fun _ => faithful_readValue_succ hitems hmembers,
      fun depth => faithful_readItems_succ (hitem depth),
      fun depth => faithful_readItem_succ (hvalue depth) (hitems depth false),
      fun depth => faithful_readMembers_succ (hmember depth),
      fun depth => faithful_readMember_succ (hvalue depth) (hmembers depth false)⟩

/-! ### Whole texts -/

/-- The tree of a text that has a value shows it. -/
theorem shows_of_json {limit : Nat} {text : String} {j : Json}
    (h : (LocatedText.ofText limit text).root.json = .ok j) :
    (LocatedText.ofText limit text).root.Shows j := by
  -- A text with a fault has no value, so this one was read without.
  obtain ⟨-, ⟨j', hj'⟩, -⟩ | ⟨-, fault, hfault⟩ :=
    (faithful_read (6 * text.length + 6)).1 limit (Cursor.ofText text)
  · obtain rfl := Except.ok.inj (h.symm.trans hj'.json_eq)
    exact hj'
  · cases h.symm.trans hfault

/-- What is decoded from a text is what is decoded from its tree, if nothing follows the value. -/
theorem decodeText_eq_ok_iff {α : Type} {decode : Decoder α} {text : String} {a : α} :
    decodeText decode text = .ok a ↔
      decode (LocatedText.ofText nestingLimit text).root = .ok a ∧
        (LocatedText.ofText nestingLimit text).surplus = none := by
  cases hroot : decode (LocatedText.ofText nestingLimit text).root with
  | error p => simp [decodeText, hroot]
  | ok b =>
    cases hsurplus : (LocatedText.ofText nestingLimit text).surplus <;>
      simp [decodeText, hroot, hsurplus]

/-- No name repeats in any object of the text, which has a value. -/
def NamesApart (text : String) : Prop := ∃ j, decodeText whole text = .ok j ∧ j.Distinct

/-- A text in which no name repeats is read without a fault into a tree of its value, and nothing
follows. -/
theorem NamesApart.shows {text : String} {j : Json} (h : NamesApart text)
    (hj : ofText text = .ok j) :
    (LocatedText.ofText nestingLimit text).root.Shows j ∧
      (LocatedText.ofText nestingLimit text).surplus = none := by
  obtain ⟨raw, hraw, hdistinct⟩ := h
  obtain ⟨hroot, hsurplus⟩ := decodeText_eq_ok_iff.mp hraw
  obtain ⟨hany, -⟩ := decodeText_eq_ok_iff.mp hj
  rw [anything, hroot] at hany
  obtain rfl : raw = j := (collapse_eq_self hdistinct).symm.trans (Except.ok.inj hany)
  refine ⟨shows_of_json ?_, hsurplus⟩
  unfold whole at hroot
  split at hroot
  case h_1 found hfound => rw [hfound, Except.ok.inj hroot]
  case h_2 => cases hroot

/-- An indifferent decoder reads the same from a text in which no name repeats and from the value
of the text. -/
theorem toOption_decodeText {α : Type} {decode : Decoder α} (h : decode.Indifferent)
    {text : String} {j : Json} (hj : ofText text = .ok j) (hnames : NamesApart text) :
    (decodeText decode text).toOption = (decode (.ofJson j)).toOption := by
  obtain ⟨hshows, hsurplus⟩ := hnames.shows hj
  rw [← h hshows (Located.shows_ofJson j)]
  cases hroot : decode (LocatedText.ofText nestingLimit text).root with
  | error p => simp only [decodeText, hroot]
  | ok a => simp only [decodeText, hroot, hsurplus]

end Json

end DatalogClient
