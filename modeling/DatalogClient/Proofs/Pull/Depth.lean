import DatalogClient.Proofs.Document.Frames
import DatalogClient.Proofs.Json.Spelling
import DatalogClient.Proofs.Pull.Canonical
import DatalogClient.Proofs.Value.Collapse

/-!
# Specs at any depth

The text of a spec may stand alone, or as an element of a pattern inside pull maps. Alone it is
read with all its entries, even where a name repeats. Inside a pull map the last entry of a name
stands for all of them, at the place of the first. So at any depth the same spec is read as from the
text alone, unless that is an object that holds a name twice.

## Main definitions

* `AttrSpec.Link` — the text of a pull map around a place
* `AttrSpec.around` — a text inside a chain of pull maps
* `AttrSpec.Encloses` — what stands around the place is read as what stands in a frame

## Main results

* `AttrSpec.read_true_eq_iff` — which specs are read alike alone and inside a pull map
* `AttrSpec.Encloses.read_iff` — what is read in the place of a chain
* `AttrSpec.decode_around_iff` — which texts are read alike at every depth
* `AttrSpec.decode_around_attrs` — which entries of the others are left
-/

namespace DatalogClient

open Json (Spelling Written)

/-! ### Reading with and without repeated names -/

/-- An option is read again if repeated names are dropped. -/
theorem AttrOption.ofItems?_collapse {items : List Json} {o : AttrOption}
    (h : ofItems? items = some o) : ofItems? (Json.collapseItems items) = some o := by
  obtain ⟨label, argument, rfl, value, hvalue, hkind⟩ := ofItems?_eq_some_iff.mp h
  rw [ofItems?_eq_some_iff]
  exact ⟨label, argument.collapse, rfl, value, Value.ofJson?_collapse hvalue, hkind⟩

/-- Targets are kept by their names, before or after they are read. -/
theorem MapSpec.latest_readTargets (members : List (String × Json)) :
    Json.latest (readTargets members) = readTargets (Json.latest members) := by
  rw [readTargets_eq_map, readTargets_eq_map, Json.latest_map]

namespace AttrSpec

theorem read_false_obj (members : List (String × Json)) :
    read false (.obj members) =
      (MapSpec.assemble members (MapSpec.readTargets members)).map .map := by
  rw [read, if_neg Bool.false_ne_true]

theorem read_true_obj (members : List (String × Json)) :
    read true (.obj members) =
      (MapSpec.assemble (Json.latest members)
        (MapSpec.readTargets (Json.latest members))).map .map := by
  rw [read, if_pos rfl, MapSpec.latest_readTargets]

/-- The names of the members of an object that is read the same either way differ: those of
entries are kept, and those of a selector are two. -/
theorem nodup_of_read_both {members : List (String × Json)} {s : AttrSpec}
    (hall : read false (.obj members) = some s) (honce : read true (.obj members) = some s) :
    (members.map (·.1)).Nodup := by
  rw [read_false_obj, Option.map_eq_some_iff] at hall
  rw [read_true_obj, Option.map_eq_some_iff] at honce
  obtain ⟨spec, hspec, rfl⟩ := hall
  obtain ⟨other, hlatest, hsame⟩ := honce
  obtain rfl : other = spec := AttrSpec.map.inj hsame
  cases other with
  | attrs entries =>
    rw [MapSpec.map_fst_of_assemble hspec, ← MapSpec.map_fst_of_assemble hlatest]
    exact Json.nodup_latest members
  | keyed key selector =>
    obtain ⟨hnames, -⟩ := MapSpec.assemble_eq_keyed_iff.mp hspec
    exact hnames.nodup_iff.mpr (by decide)

/-- A spec that is read with all entries is read with the last ones exactly if no name of its
entries repeats. What repeats further inside is dropped either way. -/
theorem read_true_eq_iff {j : Json} {s : AttrSpec} (h : read false j = some s) :
    read true j = some s ↔ j.NamesOnce := by
  cases j with
  | null | bool _ | num _ => cases h
  | str text => exact iff_of_true h trivial
  | arr items =>
    rw [read, if_neg Bool.false_ne_true] at h
    obtain ⟨o, ho, rfl⟩ := Option.map_eq_some_iff.mp h
    -- Names may repeat in the argument of an option, but no literal depends on that.
    refine iff_of_true ?_ trivial
    rw [read, if_pos rfl, AttrOption.ofItems?_collapse ho, Option.map_some]
  | obj members =>
    constructor
    · exact nodup_of_read_both h
    · intro hnames
      rw [read_obj hnames] at h ⊢
      exact h

/-- Only objects are map specs. -/
theorem exists_obj_of_read {once : Bool} {j : Json} {spec : MapSpec}
    (h : read once j = some (.map spec)) : ∃ members, j = .obj members := by
  cases j with
  | null | bool _ | num _ => cases h
  | str text =>
    rw [read, ofText] at h
    split_ifs at h
    · cases h
    · cases h
  | arr items =>
    obtain ⟨o, -, ho⟩ := Option.map_eq_some_iff.mp h
    cases ho
  | obj members => exact ⟨members, rfl⟩

/-- Of the entries of a map spec those that are the last of their name are read inside a pull map,
if they are not just those of a selector. -/
theorem read_true_attrs {j : Json} {entries : List (String × MapTarget)}
    (h : read false j = some (.map (.attrs entries)))
    (hplain : ¬ ((Json.latest entries).map (·.1)).Perm ["key", "selector"]) :
    read true j = some (.map (.attrs (Json.latest entries))) := by
  obtain ⟨members, rfl⟩ := exists_obj_of_read h
  rw [read_false_obj, Option.map_eq_some_iff] at h
  rw [read_true_obj, Option.map_eq_some_iff]
  simp only [AttrSpec.map.injEq, exists_eq_right, MapSpec.assemble_eq_attrs_iff] at h ⊢
  -- Members and entries correspond exactly if their names and targets are the same lists.
  have hsame : ∀ (members : List (String × Json)) (entries : List (String × MapTarget)),
      List.Forall₂ (fun member entry => member.1 = entry.1 ∧
        MapTarget.read true member.2 = some entry.2) members entries ↔
      members.map (fun member => (member.1, MapTarget.read true member.2)) =
        entries.map fun entry => (entry.1, some entry.2) := by
    intro members entries
    rw [← List.forall₂_eq_eq_eq, List.forall₂_map_left_iff, List.forall₂_map_right_iff]
    simp only [Prod.mk.injEq]
  have hlatest := congrArg Json.latest ((hsame members entries).mp h.2)
  rw [Json.latest_map, Json.latest_map] at hlatest
  have hnames : (Json.latest members).map (·.1) = (Json.latest entries).map (·.1) := by
    simpa [Function.comp_def] using congrArg (List.map (·.1)) hlatest
  rw [hnames]
  exact ⟨hplain, (hsame _ _).mpr hlatest⟩

/-! ### Texts inside pull maps -/

/-- The text of a pull map around a place: the members before and after the one that has the place
in its pattern, and the specs of that pattern on either side. -/
structure Link where
  before : List (String × Written)
  attr : String
  left : List Written
  right : List Written
  after : List (String × Written)

namespace Link

variable {l : Link}

/-- The names of the members. -/
def names (l : Link) : List String := l.before.map (·.1) ++ l.attr :: l.after.map (·.1)

/-- The pull map with a text in the place. -/
def around (l : Link) (x : Spelling) : Spelling :=
  let spelled := fun member : String × Written => (member.1, member.2.toSpelling)
  let pattern := Spelling.list
    (l.left.map Written.toSpelling ++ x :: l.right.map Written.toSpelling)
  Spelling.object (l.before.map spelled ++ (l.attr, pattern) :: l.after.map spelled)

/-- The pattern with a value in the place. -/
def pattern (l : Link) (value : Json) : Json :=
  .arr (l.left.map (·.value) ++ value :: l.right.map (·.value))

/-- The members with a value in the place. -/
def members (l : Link) (value : Json) : List (String × Json) :=
  let valued := fun member : String × Written => (member.1, member.2.value)
  l.before.map valued ++ (l.attr, l.pattern value) :: l.after.map valued

theorem value_around (l : Link) (x : Spelling) :
    (l.around x).value = .obj (l.members x.value) := by
  simp [around, members, pattern, Spelling.value_object, Spelling.value_list, Function.comp_def]

theorem map_fst_members (l : Link) (value : Json) : (l.members value).map (·.1) = l.names := by
  simp [members, names, Function.comp_def]

/-- The members of a selector, its key before or after its pattern. -/
theorem members_perm {w : Written} (hattr : l.attr = "selector")
    (hothers : l.before ++ l.after = [("key", w)]) (value : Json) :
    (l.members value).Perm [("key", w.value), ("selector", l.pattern value)] := by
  have hsides : (l.before ++ l.after).map (fun member => (member.1, member.2.value)) =
      [("key", w.value)] := by
    rw [hothers, List.map_singleton]
  rw [List.map_append] at hsides
  rw [members, hattr]
  refine List.perm_middle.trans ?_
  rw [hsides]
  exact .swap _ _ _

theorem isSpelled_around {x : Spelling} (h : x.IsSpelled) : (l.around x).IsSpelled := by
  have hpattern : (Spelling.list
      (l.left.map Written.toSpelling ++ x :: l.right.map Written.toSpelling)).IsSpelled := by
    refine Spelling.isSpelled_list ?_
    rw [List.forall_mem_append, List.forall_mem_cons, List.forall_mem_map, List.forall_mem_map]
    exact ⟨fun w _ => w.isSpelled, h, fun w _ => w.isSpelled⟩
  have hmembers : ∀ members : List (String × Written),
      ∀ member ∈ members.map fun member => (member.1, member.2.toSpelling),
        member.2.IsSpelled := by
    intro members
    rw [List.forall_mem_map]
    exact fun member _ => member.2.isSpelled
  refine Spelling.isSpelled_object ?_
  rw [List.forall_mem_append, List.forall_mem_cons]
  exact ⟨hmembers l.before, hpattern, hmembers l.after⟩

end Link

/-- A text inside a chain of pull maps, the outermost one first. -/
def around : List Link → Spelling → Spelling
  | [], x => x
  | l :: links, x => l.around (around links x)

theorem isSpelled_around {x : Spelling} (h : x.IsSpelled) (links : List Link) :
    (around links x).IsSpelled := by
  induction links with
  | nil => exact h
  | cons l links ih => exact Link.isSpelled_around ih

/-! ### Reading inside pull maps -/

/-- The text of a member is read as the target of an entry, under its name. -/
def ReadsEntry (member : String × Written) (entry : String × MapTarget) : Prop :=
  member.1 = entry.1 ∧ MapTarget.read true member.2.value = some entry.2

/-- The text of an element of a pattern is read as a spec. -/
def ReadsSpec (w : Written) (s : AttrSpec) : Prop := read true w.value = some s

/-- What stands around the place of a chain is read as what stands around the place of a frame. No
name repeats in a pull map inside another one, nor in the outermost one if `once` says so. -/
inductive Encloses : (once : Bool) → List Link → Frame → Prop where
  | place {once : Bool} : Encloses once [] .place
  /-- The outermost pull map names attributes. -/
  | entry {once : Bool} {l : Link} {links : List Link} {inner : Frame}
      {before after : List (String × MapTarget)} {left right : List AttrSpec}
      (hnames : once = true → l.names.Nodup) (hplain : ¬ l.names.Perm ["key", "selector"])
      (hbefore : List.Forall₂ ReadsEntry l.before before)
      (hleft : List.Forall₂ ReadsSpec l.left left) (hright : List.Forall₂ ReadsSpec l.right right)
      (hafter : List.Forall₂ ReadsEntry l.after after) (hinner : Encloses true links inner) :
      Encloses once (l :: links) (.entry before l.attr left inner right after)
  /-- The outermost pull map is a selector with its key. -/
  | selector {once : Bool} {l : Link} {links : List Link} {inner : Frame} {w : Written}
      {key : MapKey} {left right : List AttrSpec} (hattr : l.attr = "selector")
      (hothers : l.before ++ l.after = [("key", w)])
      (hkey : MapKey.ofJson? w.value.collapse = some key)
      (hleft : List.Forall₂ ReadsSpec l.left left) (hright : List.Forall₂ ReadsSpec l.right right)
      (hinner : Encloses true links inner) :
      Encloses once (l :: links) (.selector key left inner right)

/-- Where what stands around a place corresponds, it depends on the place whether all does. -/
theorem forall₂_place_iff {α β γ : Type} {R : α → β → Prop} {f : γ → α} {left right : List γ}
    {left' right' : List β} {a : α} {b : β} (hleft : List.Forall₂ (fun c => R (f c)) left left')
    (hright : List.Forall₂ (fun c => R (f c)) right right') :
    List.Forall₂ R (left.map f ++ a :: right.map f) (left' ++ b :: right') ↔ R a b := by
  rw [← List.forall₂_map_left_iff] at hright
  induction hleft with
  | nil => rw [List.map_nil, List.nil_append, List.nil_append, List.forall₂_cons,
      and_iff_left hright]
  | cons hfirst _ ih =>
    rw [List.map_cons, List.cons_append, List.cons_append, List.forall₂_cons,
      and_iff_right hfirst, ih]

variable {once : Bool} {l : Link} {x : Spelling} {s : AttrSpec}

/-- A pull map is read as a map spec, with all its entries if it may hold a name twice. -/
theorem read_link (hnames : once = true → l.names.Nodup) (value : Json) :
    read once (.obj (l.members value)) =
      (MapSpec.assemble (l.members value) (MapSpec.readTargets (l.members value))).map .map := by
  cases once with
  | false => exact read_false_obj _
  | true => exact read_obj (by rw [Link.map_fst_members]; exact hnames rfl)

/-- A pattern is read as one with a spec in the place exactly if that is what is read there. -/
theorem read_pattern_iff {left right : List AttrSpec}
    (hleft : List.Forall₂ ReadsSpec l.left left) (hright : List.Forall₂ ReadsSpec l.right right)
    {value : Json} :
    MapTarget.read true (l.pattern value) = some (.pattern (left ++ s :: right)) ↔
      read true value = some s := by
  rw [Link.pattern, MapTarget.read, Option.map_eq_some_iff]
  simp only [MapTarget.pattern.injEq, exists_eq_right, readPattern_eq_some_iff]
  exact forall₂_place_iff hleft hright

/-- What is read in the place of a pull map of attributes. -/
theorem read_entry_iff {before after : List (String × MapTarget)} {left right : List AttrSpec}
    (hnames : once = true → l.names.Nodup) (hplain : ¬ l.names.Perm ["key", "selector"])
    (hbefore : List.Forall₂ ReadsEntry l.before before)
    (hleft : List.Forall₂ ReadsSpec l.left left) (hright : List.Forall₂ ReadsSpec l.right right)
    (hafter : List.Forall₂ ReadsEntry l.after after) :
    read once (l.around x).value =
        some (.map (.attrs (before ++ (l.attr, .pattern (left ++ s :: right)) :: after))) ↔
      read true x.value = some s := by
  rw [Link.value_around, read_link hnames, Option.map_eq_some_iff]
  simp only [AttrSpec.map.injEq, exists_eq_right, MapSpec.assemble_eq_attrs_iff,
    Link.map_fst_members, hplain, not_false_eq_true, true_and]
  refine Iff.trans ?_ (read_pattern_iff hleft hright)
  refine Iff.trans (forall₂_place_iff hbefore hafter) ?_
  exact and_iff_right rfl

/-- What is read in the place of a selector. -/
theorem read_selector_iff {w : Written} {key : MapKey} {left right : List AttrSpec}
    (hattr : l.attr = "selector") (hothers : l.before ++ l.after = [("key", w)])
    (hkey : MapKey.ofJson? w.value.collapse = some key)
    (hleft : List.Forall₂ ReadsSpec l.left left) (hright : List.Forall₂ ReadsSpec l.right right) :
    read once (l.around x).value = some (.map (.keyed key (left ++ s :: right))) ↔
      read true x.value = some s := by
  -- The members are looked up by their names, so it does not matter which of them comes first.
  have hmembers := Link.members_perm hattr hothers x.value
  have hnames : l.names.Perm ["key", "selector"] := by
    rw [← Link.map_fst_members]
    exact hmembers.map (·.1)
  have hnodup : l.names.Nodup := hnames.nodup_iff.mpr (by decide)
  have hlookup := Json.lookup_perm (by rwa [Link.map_fst_members]) hmembers
  rw [Link.value_around, read_link fun _ => hnodup, Option.map_eq_some_iff]
  simp only [AttrSpec.map.injEq, exists_eq_right, MapSpec.assemble_eq_keyed_iff,
    Link.map_fst_members, hnames, hlookup, Json.lookup_cons, true_and]
  simp [hkey, read_pattern_iff hleft hright]

/-- What is read in the place of a chain: the spec that is read inside a pull map if there is one,
and else the spec of the text alone. -/
theorem Encloses.read_iff {links : List Link} {frame : Frame} (h : Encloses once links frame) :
    read once (around links x).value = some (frame.fill s) ↔
      read (once || !links.isEmpty) x.value = some s := by
  -- From the outermost pull map inwards: in it names count once, whatever `once` says outside.
  induction h with
  | place => simp [around, Frame.fill]
  | entry hnames hplain hbefore hleft hright hafter hinner ih =>
    rw [around, Frame.fill, read_entry_iff hnames hplain hbefore hleft hright hafter, ih]
    simp
  | selector hattr hothers hkey hleft hright hinner ih =>
    rw [around, Frame.fill, read_selector_iff hattr hothers hkey hleft hright, ih]
    simp

/-! ### Decoding inside pull maps -/

/-- A text that is decoded as a spec has a value, which is read with all its entries. -/
theorem decode_iff {text : String} :
    Json.decodeText decode text = .ok s ↔
      ∃ j, Json.decodeText Json.whole text = .ok j ∧ read false j = some s :=
  Json.decodeText_inSomeForm_iff

theorem decode_iff_of_whole {text : String} {j : Json}
    (h : Json.decodeText Json.whole text = .ok j) :
    Json.decodeText decode text = .ok s ↔ read false j = some s := by
  rw [decode_iff, h]
  simp

/-- Every text that is decoded as a spec may stand in the place of a chain. -/
theorem exists_written_of_decode {text : String} (h : Json.decodeText decode text = .ok s) :
    ∃ w : Written, w.text = text := by
  obtain ⟨j, hj, -⟩ := decode_iff.mp h
  rw [← String.ofList_toList (s := text)] at hj
  exact ⟨⟨⟨text.toList, j⟩, hj⟩, String.ofList_toList⟩

section Chains

variable {w : Written} {links : List Link} {frame : Frame}

/-- Any text of the value of a chain, however spelled, is decoded as the frame with what is read in
the place inside a pull map. -/
theorem Encloses.decode_fill_iff (h : Encloses false links frame) (hlinks : links ≠ [])
    {text : String}
    (htext : Json.decodeText Json.whole text = .ok (around links w.toSpelling).value) :
    Json.decodeText decode text = .ok (frame.fill s) ↔ read true w.value = some s := by
  have hinside : (false || !links.isEmpty) = true := by simpa using hlinks
  rw [decode_iff_of_whole htext, h.read_iff, hinside]

/-- A chain that does not nest too deep is decoded, with what is read in the place. -/
theorem Encloses.decode_around (h : Encloses false links frame) (hlinks : links ≠ [])
    (hdepth : (around links w.toSpelling).value.nesting ≤ Json.nestingLimit) :
    Json.decodeText decode (around links w.toSpelling).text = .ok (frame.fill s) ↔
      read true w.value = some s :=
  h.decode_fill_iff hlinks (Spelling.whole_text (isSpelled_around w.isSpelled links) hdepth)

/-- A text that is a spec by itself is the same spec inside a chain of pull maps exactly if it is
no object that holds a name twice. -/
theorem decode_around_iff (hspec : Json.decodeText decode w.text = .ok s)
    (h : Encloses false links frame) (hlinks : links ≠ [])
    (hdepth : (around links w.toSpelling).value.nesting ≤ Json.nestingLimit) :
    Json.decodeText decode (around links w.toSpelling).text = .ok (frame.fill s) ↔
      w.value.NamesOnce := by
  rw [h.decode_around hlinks hdepth]
  exact read_true_eq_iff ((decode_iff_of_whole w.read).mp hspec)

/-- The text of a map spec of one entry. -/
def single : Written :=
  .compact (.obj [("a/b", .arr [.str "c/d"])])
    (by simp [Json.Whole, Json.WholeNumber, Json.Every, Json.EveryItem, Json.EveryMember])
    (by decide)

/-- The text of a map spec that holds a name twice. -/
def doubled : Written :=
  .compact (.obj [("a/b", .arr [.str "c/d"]), ("a/b", .arr [.str "e/f"])])
    (by simp [Json.Whole, Json.WholeNumber, Json.Every, Json.EveryItem, Json.EveryMember])
    (by decide)

/-- A pull map with nothing but a place, behind an attribute. -/
def behindEntry : Link := ⟨[], "x/y", [], [], []⟩

/-- A pull map with a place before a wildcard, in a selector. -/
def inSelector : Link :=
  ⟨[("key", .compact (.str "k/k") trivial (by decide))], "selector", [],
    [.compact (.str "*") trivial (by decide)], []⟩

theorem encloses_behindEntry (once : Bool) :
    Encloses once [behindEntry] (.entry [] "x/y" [] .place [] []) := by
  have hnames : behindEntry.names = ["x/y"] := rfl
  refine .entry ?_ ?_ .nil .nil .nil .nil .place
  · rw [hnames]
    exact fun _ => List.nodup_singleton _
  · rw [hnames]
    exact fun hperm => absurd hperm.length_eq (by decide)

/-- A map spec of one entry is the same two pull maps deep. -/
theorem decode_around_single :
    Json.decodeText decode single.text = .ok (.map (.attrs [("a/b", .pattern [.name "c/d"])])) ∧
      Json.decodeText decode (around [inSelector, behindEntry] single.toSpelling).text =
        .ok (.map (.keyed (.attr "k/k") [.map (.attrs [("x/y",
          .pattern [.map (.attrs [("a/b", .pattern [.name "c/d"])])])]), .wildcard])) := by
  have halone : Json.decodeText decode single.text =
      .ok (.map (.attrs [("a/b", .pattern [.name "c/d"])])) :=
    (decode_iff_of_whole single.read).mpr rfl
  have hchain : Encloses false [inSelector, behindEntry]
      (.selector (.attr "k/k") [] (.entry [] "x/y" [] .place [] []) [.wildcard]) :=
    .selector rfl rfl rfl .nil (.cons rfl .nil) (encloses_behindEntry true)
  have honce : single.value.NamesOnce := List.nodup_singleton _
  exact ⟨halone, (decode_around_iff halone hchain (List.cons_ne_nil _ _) (by decide)).mpr honce⟩

/-- The entries of one name are both decoded from the text alone, and of them only the last one
inside a pull map. -/
theorem repeatedEntry_lost :
    Json.decodeText decode "\x7b\"a/b\":[\"c/d\"],\"a/b\":[\"e/f\"]\x7d" =
        .ok (.map (.attrs [("a/b", .pattern [.name "c/d"]), ("a/b", .pattern [.name "e/f"])])) ∧
      Json.decodeText decode
          "\x7b\"x/y\":[\x7b\"a/b\":[\"c/d\"],\"a/b\":[\"e/f\"]\x7d]\x7d" =
        .ok (.map (.attrs
          [("x/y", .pattern [.map (.attrs [("a/b", .pattern [.name "e/f"])])])])) := by
  constructor
  · exact (decode_iff_of_whole doubled.read).mpr rfl
  · have hlast : read true doubled.value =
        some (.map (.attrs [("a/b", .pattern [.name "e/f"])])) := rfl
    have htext : (around [behindEntry] doubled.toSpelling).text =
        "\x7b\"x/y\":[\x7b\"a/b\":[\"c/d\"],\"a/b\":[\"e/f\"]\x7d]\x7d" := rfl
    have hchain := encloses_behindEntry false
    rw [← htext]
    exact (hchain.decode_around (w := doubled) (List.cons_ne_nil _ _) (by decide)).mpr hlast

/-- Of entries that are decoded by themselves, those that are the last of their name are decoded
inside a chain of pull maps, if they are not just those of a selector. -/
theorem decode_around_attrs {entries : List (String × MapTarget)}
    (hspec : Json.decodeText decode w.text = .ok (.map (.attrs entries)))
    (hplain : ¬ ((Json.latest entries).map (·.1)).Perm ["key", "selector"])
    (h : Encloses false links frame) (hlinks : links ≠ [])
    (hdepth : (around links w.toSpelling).value.nesting ≤ Json.nestingLimit) :
    Json.decodeText decode (around links w.toSpelling).text =
      .ok (frame.fill (.map (.attrs (Json.latest entries)))) := by
  rw [h.decode_around hlinks hdepth]
  exact read_true_attrs ((decode_iff_of_whole w.read).mp hspec) hplain

end Chains

end AttrSpec

end DatalogClient
