import DatalogClient.Proofs.Document.Whereabouts
import DatalogClient.Proofs.Text.Lines

/-!
# What messages quote

What is said of a part of a document quotes at most one text, and puts it between backticks as it
is. The text stands in the wire form of the part, and so do the names in the path to it. All else
that is said is fixed and has no line feed, and a message never ends by what it quotes.

## Main definitions

* `Json.EveryText` — a condition holds of every string and every name in a JSON value
* `Json.Location.EveryName` — a condition holds of every name in a location
* `Quotes` — a message quotes nothing but a text of which a condition holds
* `Remark.Quotes` — so does a remark, and the names in its path

## Main results

* `Document.Part.quotes_of_mem_remarks` — what is said of a part quotes texts of its wire form
* `Document.quotes_of_mem_issues` — issues quote texts of the document
-/

namespace DatalogClient

open Text (OneLine Ended)

/-! ### Texts inside a JSON value -/

namespace Json

variable {P : String → Prop}

/-- The condition holds of a string, and of the names of an object. -/
def TextsHere (P : String → Prop) : Json → Prop
  | .str s => P s
  | .obj members => ∀ member ∈ members, P member.1
  | _ => True

/-- The condition holds of every string and of every name of a member in the value. -/
def EveryText (P : String → Prop) (j : Json) : Prop := j.Every (TextsHere P)

@[simp] theorem everyText_str (s : String) : (Json.str s).EveryText P ↔ P s := Iff.rfl

@[simp] theorem everyText_arr (items : List Json) :
    (Json.arr items).EveryText P ↔ ∀ item ∈ items, item.EveryText P := by
  simp [EveryText, TextsHere]

@[simp] theorem everyText_obj (members : List (String × Json)) :
    (Json.obj members).EveryText P ↔ ∀ member ∈ members, P member.1 ∧ member.2.EveryText P := by
  simp [EveryText, TextsHere, forall_and]

theorem everyText_of_forall (h : ∀ text, P text) (j : Json) : j.EveryText P := by
  induction j using nestedInduction with
  | arr items ih => exact (everyText_arr items).mpr ih
  | obj members ih => exact (everyText_obj members).mpr fun member hm => ⟨h _, ih member hm⟩
  | str s => exact h s
  | null => trivial
  | bool b => trivial
  | num n => trivial

namespace Location

/-- The condition holds of every name in the location. -/
def EveryName (P : String → Prop) (location : Location) : Prop :=
  ∀ name, .member name ∈ location → P name

@[simp] theorem everyName_nil : EveryName P [] := by
  simp [EveryName]

@[simp] theorem everyName_member (name : String) (rest : Location) :
    EveryName P (.member name :: rest) ↔ P name ∧ EveryName P rest := by
  simp [EveryName, or_imp, forall_and]

@[simp] theorem everyName_item (index : Nat) (rest : Location) :
    EveryName P (.item index :: rest) ↔ EveryName P rest := by
  simp [EveryName]

@[simp] theorem everyName_append (location inner : Location) :
    EveryName P (location ++ inner) ↔ EveryName P location ∧ EveryName P inner := by
  simp [EveryName, or_imp, forall_and]

end Location

end Json

/-! ### Messages that quote -/

variable {P : String → Prop}

theorem oneLine_toString (n : Nat) : OneLine (toString n) := by
  have hdigits : (toString n).toList = Nat.toDigits 10 n := Nat.toList_repr
  rw [OneLine, hdigits]
  exact fun h => absurd (Nat.isDigit_of_mem_toDigits (by decide) (by decide) h) (by decide)

/-- The message is a text of which the condition holds, with something on one line before and after
it. What stands after it is not empty. -/
def Quotes (P : String → Prop) (message : String) : Prop :=
  ∃ before quoted after : String, message = before ++ quoted ++ after ∧ P quoted ∧
    OneLine before ∧ OneLine after ∧ after ≠ ""

namespace Quotes

variable {message : String}

/-- A message without line feeds may be taken to quote the empty text. -/
theorem of_oneLine (hP : P "") (h : OneLine message) (hne : message ≠ "") : Quotes P message :=
  ⟨"", "", message, by simp, hP, by decide, h, hne⟩

theorem behind {text : String} {before : List Char} (hP : P text) (hbefore : '\n' ∉ before) :
    Quotes P (String.ofList before ++ ticked text) := by
  refine ⟨String.ofList before ++ "`", text, "`", ?_, hP, ?_, by decide, by decide⟩
  · simp only [ticked, String.append_assoc]
  · exact Text.oneLine_append.mpr ⟨Text.oneLine_ofList hbefore, by decide⟩

theorem ended (h : Quotes P message) : Ended message := by
  obtain ⟨before, quoted, after, rfl, -, -, hafter, hne⟩ := h
  exact (hafter.ended hne).append_left _

theorem oneLine (h : Quotes OneLine message) : OneLine message := by
  obtain ⟨before, quoted, after, rfl, hquoted, hbefore, hafter, -⟩ := h
  simp [hquoted, hbefore, hafter]

end Quotes

/-- The message of a remark quotes a text of which the condition holds, and the condition holds of
the names in the path of the remark. -/
structure Remark.Quotes (P : String → Prop) (r : Remark) : Prop where
  message : DatalogClient.Quotes P r.message
  names : r.segment.location.EveryName P

theorem forall_mem_remarkIf {condition : Bool} {remark : Remark} (h : remark.Quotes P) :
    ∀ r ∈ remarkIf condition remark, r.Quotes P := by
  intro r hr
  rwa [Document.Part.eq_of_mem_remarkIf hr]

theorem names_nowhere : Segment.nowhere.location.EveryName P := by
  simp

theorem names_index {n : Nat} : (Segment.index n).location.EveryName P := by
  simp

theorem names_field {field : String} (h : P field) :
    (Segment.field field).location.EveryName P := by
  simpa using h

theorem names_key {key : String} (h : P key) : (Segment.key key).location.EveryName P := by
  simpa using h

theorem MapKey.name_of_everyText {key : MapKey} (h : key.toJson.EveryText P) : P key.name := by
  cases key with
  | attr name => exact h
  | option o => exact (Json.everyText_arr _).mp h (.str o.attr) List.mem_cons_self

theorem quotes_unqualified {attr : String} (h : P attr) : Quotes P (unqualified attr) :=
  .behind h (by decide)

theorem FindTerm.oneLine_strayMark {mark : String} (h : OneLine mark) :
    OneLine (strayMark mark) := by
  have hticked : OneLine (ticked mark) := by
    simp only [ticked, Text.oneLine_append, h]
    decide
  exact Text.oneLine_append.mpr ⟨Text.oneLine_append.mpr
    ⟨Text.oneLine_ofList (by decide), hticked⟩, Text.oneLine_ofList (by decide)⟩

theorem FindTerm.strayMark_ne_empty (mark : String) : strayMark mark ≠ "" := by
  unfold strayMark
  simp

/-! ### Texts inside the parts of a document -/

namespace Document

theorem everyText_of_memberIf {α : Type} {name : String} {write : α → Json}
    {items : Option (List α)}
    (h : ∀ member ∈ memberIf name write items, P member.1 ∧ member.2.EveryText P) :
    ∀ a ∈ items.getD [], (write a).EveryText P := by
  cases items with
  | none => simp
  | some items => simpa [memberIf] using (h _ List.mem_cons_self).2

/-- The condition holds in the sections of a document if it holds in its wire form. -/
theorem everyText_sections {d : Document} (hd : d.wire.EveryText P) :
    (∀ t ∈ d.find, t.toJson.EveryText P) ∧ (∀ key ∈ d.keys.getD [], P key) ∧
      (∀ b ∈ d.inputs.getD [], b.toJson.EveryText P) ∧
      ∀ c ∈ d.clauses.getD [], c.toJson.EveryText P := by
  rw [wire, Json.everyText_obj, List.forall_mem_cons, List.forall_mem_append,
    List.forall_mem_append, List.forall_mem_append, Json.everyText_arr, List.forall_mem_map] at hd
  obtain ⟨⟨-, hfind⟩, ⟨⟨hkeys, hinputs⟩, hclauses⟩, -⟩ := hd
  exact ⟨hfind, everyText_of_memberIf hkeys, everyText_of_memberIf hinputs,
    everyText_of_memberIf hclauses⟩

namespace Part

/-- The condition holds in the wire form of a part, and of the names on the way to it. -/
structure Meets (P : String → Prop) (location : Json.Location) (p : Part) : Prop where
  texts : p.wire.EveryText P
  names : location.EveryName P

theorem meets_items {α : Type} {part : Nat → α → Part} {member : String} {items : List α}
    (hmember : P member) (h : ∀ i, ∀ a ∈ items, (part i a).wire.EveryText P) :
    ∀ child ∈ items.mapIdx (fun i a => ([Json.Step.member member, .item i], part i a)),
      Meets P child.1 child.2 := by
  intro child hchild
  obtain ⟨i, hi, rfl⟩ := List.mem_mapIdx.mp hchild
  exact ⟨h i _ (List.getElem_mem hi), by simpa using hmember⟩

/-- The condition holds in an only child if it holds in its wire form and of the names on the way
to it. -/
theorem meets_only {p : Part} {location : Json.Location} (hp : p.wire.EveryText P)
    (hlocation : location.EveryName P) :
    ∀ child ∈ [(location, p)], Meets P child.1 child.2 := by
  rw [List.forall_mem_singleton]
  exact ⟨hp, hlocation⟩

theorem meets_document (hP : ∀ text, OneLine text → P text) {d : Document}
    (hd : d.wire.EveryText P) : ∀ child ∈ (document d).children, Meets P child.1 child.2 := by
  obtain ⟨hfind, -, hinputs, hclauses⟩ := everyText_sections hd
  rw [children, List.forall_mem_append, List.forall_mem_append]
  exact ⟨⟨meets_items (hP _ (by decide)) fun _ => hfind,
    meets_items (hP _ (by decide)) fun _ => hinputs⟩,
    meets_items (hP _ (by decide)) fun _ => hclauses⟩

theorem meets_map {m : MapSpec} (hm : (AttrSpec.map m).toJson.EveryText P) :
    ∀ child ∈ (spec (.map m)).children, Meets P child.1 child.2 := by
  cases m with
  | attrs entries =>
    rw [AttrSpec.toJson, MapSpec.toJson, MapSpec.entriesToJson_eq_map, Json.everyText_obj,
      List.forall_mem_map] at hm
    intro child hchild
    obtain ⟨⟨name, target⟩, hentry, hchild⟩ := List.mem_flatMap.mp hchild
    obtain ⟨hname, htarget⟩ := hm _ hentry
    -- The name of an attribute that is followed is a name in the wire form, not a fixed one.
    refine meets_items hname (fun _ => ?_) child hchild
    cases target with
    | pattern specs => simpa [MapTarget.toJson, MapTarget.specs, wire] using htarget
    | recursion limit => simp [MapTarget.specs]
  | keyed key selector =>
    rw [AttrSpec.toJson, MapSpec.toJson, AttrSpec.patternToJson_eq_map, Json.everyText_obj,
      List.forall_mem_cons, List.forall_mem_singleton, Json.everyText_arr,
      List.forall_mem_map] at hm
    exact meets_items hm.2.1 fun _ => hm.2.2

theorem meets_binding {b : Binding} (hb : b.toJson.EveryText P) :
    ∀ child ∈ (binding b).children, Meets P child.1 child.2 := by
  cases b with
  | scalar var => simp [children]
  | collection var => simp [children]
  | tuple names => exact meets_only hb (by simp)
  | relation names =>
    rw [Binding.toJson, Json.everyText_arr, List.forall_mem_singleton] at hb
    exact meets_only hb (by simp)

theorem meets_clause {c : Clause} (hc : c.toJson.EveryText P) :
    ∀ child ∈ (clause c).children, Meets P child.1 child.2 := by
  cases c with
  | pattern items => simp [children]
  | predicate call =>
    rw [Clause.toJson, Json.everyText_arr, List.forall_mem_singleton] at hc
    exact meets_only hc (by simp)
  | function call b =>
    rw [Clause.toJson, Json.everyText_arr, List.forall_mem_cons, List.forall_mem_singleton] at hc
    rw [children, List.forall_mem_cons]
    exact ⟨⟨hc.1, by simp⟩, meets_only hc.2 (by simp)⟩
  | rule usage => simp [children]

/-- The condition holds in what a part holds if it holds in the part and of fixed names. -/
theorem meets_children (hP : ∀ text, OneLine text → P text) {p : Part} (hp : p.wire.EveryText P) :
    ∀ child ∈ p.children, Meets P child.1 child.2 := by
  cases p with
  | document d => exact meets_document hP hp
  | term find index t =>
    cases t with
    | pull p => exact meets_only hp (by simp)
    | var text => simp [children]
    | single => simp [children]
    | many => simp [children]
  | pull p =>
    rw [wire, Pull.toJson, AttrSpec.patternToJson_eq_map, Json.everyText_obj, List.forall_mem_cons,
      Json.everyText_arr, List.forall_mem_map] at hp
    exact meets_items hp.1.1 fun _ => hp.1.2
  | spec s =>
    cases s with
    | name attr => simp [children]
    | wildcard => simp [children]
    | option o => simp [children]
    | map m => exact meets_map hp
  | binding b => exact meets_binding hp
  | vars names => simp [children]
  | clause c => exact meets_clause hp
  | call c => simp [children]

/-- So it holds in all that stands in the part. -/
theorem meets_of_stands (hP : ∀ text, OneLine text → P text) {p q : Part}
    {location : Json.Location} (h : p.Stands location q) (hp : p.wire.EveryText P) :
    Meets P location q := by
  induction h with
  | here p => exact ⟨hp, by simp⟩
  | inside hchild hstands ih =>
    have hq := meets_children hP hp _ hchild
    have hr := ih hq.texts
    exact ⟨hr.texts, (Json.Location.everyName_append _ _).mpr ⟨hq.names, hr.names⟩⟩

end Part

end Document

/-! ### What is said of parts

The condition may be any that holds of all texts without line feeds, as fixed texts are. -/

section

variable (hP : ∀ text, OneLine text → P text)
include hP

theorem Remark.Quotes.fixed {segment : Segment} {message : String}
    (hnames : segment.location.EveryName P) (h : OneLine message) (hne : message ≠ "") :
    Remark.Quotes P ⟨segment, message⟩ :=
  ⟨.of_oneLine (hP "" (by decide)) h hne, hnames⟩

theorem Remark.Quotes.literal {segment : Segment} {c : Char} {chars : List Char}
    (hnames : segment.location.EveryName P) (h : '\n' ∉ c :: chars) :
    Remark.Quotes P ⟨segment, String.ofList (c :: chars)⟩ :=
  .fixed hP hnames (Text.oneLine_ofList h) (by simp)

theorem AttrOption.quotes_remarks {o : AttrOption} (h : P o.attr) :
    ∀ r ∈ o.remarks, r.Quotes P := by
  rw [remarks, List.forall_mem_append]
  refine ⟨forall_mem_remarkIf ⟨quotes_unqualified h, names_index⟩, ?_⟩
  cases o.kind with
  | renamed name => exact forall_mem_remarkIf (.literal hP names_index (by decide))
  | limit count => exact forall_mem_remarkIf (.literal hP names_index (by decide))
  | fallback value => simp

theorem MapSpec.quotes_entryRemarks {entry : String × MapTarget} (h : P entry.1) :
    ∀ r ∈ entryRemarks entry, r.Quotes P := by
  obtain ⟨name, target⟩ := entry
  rw [entryRemarks, List.forall_mem_append]
  refine ⟨forall_mem_remarkIf ⟨quotes_unqualified h, names_key h⟩, ?_⟩
  cases target with
  | pattern specs => exact forall_mem_remarkIf (.literal hP (names_key h) (by decide))
  | recursion limit =>
    cases limit with
    | depth count => exact forall_mem_remarkIf (.literal hP (names_key h) (by decide))
    | unbounded => simp

theorem AttrSpec.quotes_remarks {s : AttrSpec} (hs : s.toJson.EveryText P) :
    ∀ r ∈ s.remarks, r.Quotes P := by
  cases s with
  | name attr => exact forall_mem_remarkIf ⟨quotes_unqualified hs, names_nowhere⟩
  | wildcard => simp [remarks]
  | option o =>
    have hattr : P o.attr := (Json.everyText_arr _).mp hs (.str o.attr) List.mem_cons_self
    exact o.quotes_remarks hP hattr
  | map m =>
    cases m with
    | attrs entries =>
      rw [toJson, MapSpec.toJson, Json.everyText_obj, MapSpec.entriesToJson_eq_map,
        List.forall_mem_map] at hs
      rw [remarks, List.forall_mem_append]
      refine ⟨forall_mem_remarkIf (.literal hP names_nowhere (by decide)), ?_⟩
      intro r hr
      obtain ⟨entry, hentry, hr⟩ := List.mem_flatMap.mp hr
      exact MapSpec.quotes_entryRemarks hP (hs entry hentry).1 r hr
    | keyed key selector =>
      have hkey : key.toJson.EveryText P :=
        ((Json.everyText_obj _).mp hs ("key", key.toJson) List.mem_cons_self).2
      rw [remarks, List.forall_mem_append]
      exact ⟨forall_mem_remarkIf ⟨quotes_unqualified (MapKey.name_of_everyText hkey),
          names_field (hP _ (by decide))⟩,
        forall_mem_remarkIf (.literal hP (names_field (hP _ (by decide))) (by decide))⟩

namespace Clause

theorem quotes_attrRemarks (index : Nat) {v : Value} (hv : v.toJson.EveryText P) :
    ∀ r ∈ attrRemarks index v, r.Quotes P := by
  rw [attrRemarks.eq_def]
  split
  · exact forall_mem_remarkIf ⟨quotes_unqualified hv, names_index⟩
  · simp
  · simp
  · rw [List.forall_mem_singleton]
    exact .literal hP names_index (by decide)

theorem quotes_patternRemarks {items : List Value} (hitems : ∀ v ∈ items, v.toJson.EveryText P) :
    ∀ r ∈ patternRemarks items, r.Quotes P := by
  rw [patternRemarks]
  split_ifs
  · rw [List.forall_mem_singleton]
    refine .fixed hP names_nowhere ?_ ?_
    · exact Text.oneLine_append.mpr ⟨by decide, oneLine_toString _⟩
    · simp
  · rw [List.forall_mem_append, List.forall_mem_append]
    refine ⟨⟨?_, ?_⟩, ?_⟩
    · intro r hr
      obtain ⟨v, hv, hr⟩ := List.mem_flatMap.mp hr
      have hmem := List.mem_of_mem_drop (List.mem_of_getElem? (Option.mem_toList.mp hv))
      exact quotes_attrRemarks hP _ (hitems v hmem) r hr
    · intro r hr
      obtain ⟨v, -, hr⟩ := List.mem_flatMap.mp hr
      refine forall_mem_remarkIf ?_ r hr
      exact .literal hP names_index (by decide)
    · intro r hr
      obtain ⟨v, -, hr⟩ := List.mem_flatMap.mp hr
      refine forall_mem_remarkIf ?_ r hr
      exact .literal hP names_index (by decide)

end Clause

namespace Document

theorem quotes_keyRemarks {keys : List String} (hkeys : ∀ key ∈ keys, P key) (seen : List String) :
    ∀ r ∈ keyRemarks seen keys, r.Quotes P := by
  have hfield := names_field (hP "keys" (by decide))
  induction keys generalizing seen with
  | nil => simp [keyRemarks]
  | cons key rest ih =>
    rw [List.forall_mem_cons] at hkeys
    rw [keyRemarks]
    split_ifs
    · rw [List.forall_mem_cons]
      exact ⟨.literal hP hfield (by decide), ih hkeys.2 seen⟩
    · rw [List.forall_mem_cons]
      exact ⟨⟨.behind hkeys.1 (by decide), hfield⟩, ih hkeys.2 seen⟩
    · exact ih hkeys.2 _

theorem quotes_remarks {d : Document} (hkeys : ∀ key ∈ d.keys.getD [], P key) :
    ∀ r ∈ d.remarks, r.Quotes P := by
  rw [remarks, List.forall_mem_append, List.forall_mem_append]
  refine ⟨⟨?_, ?_⟩, ?_⟩
  · exact forall_mem_remarkIf (.literal hP (names_field (hP _ (by decide))) (by decide))
  · cases hd : d.keys with
    | none => simp
    | some keys =>
      rw [hd, Option.getD_some] at hkeys
      rw [List.forall_mem_append]
      refine ⟨forall_mem_remarkIf (.fixed hP (names_field (hP _ (by decide))) ?_ ?_),
        quotes_keyRemarks hP hkeys []⟩
      · simp only [Text.oneLine_append, oneLine_toString, and_true]
        decide
      · simp
  · split
    · refine forall_mem_remarkIf (.fixed hP (names_field (hP _ (by decide))) ?_ ?_)
      · simp only [Text.oneLine_append, oneLine_toString, true_and, and_true]
        decide
      · simp
    · simp

namespace Part

theorem quotes_term {find : List FindTerm} {index : Nat} {t : FindTerm}
    (ht : t.toJson.EveryText P) : ∀ r ∈ (term find index t).remarks, r.Quotes P := by
  cases t with
  | var text => exact forall_mem_remarkIf ⟨.behind ht (by decide), names_nowhere⟩
  | pull p => simp [remarks, outline, FindTerm.outline, Outline.content]
  | single =>
    have hmark := FindTerm.oneLine_strayMark (show OneLine FindTerm.singleMark by decide)
    exact forall_mem_remarkIf (.fixed hP names_nowhere hmark (FindTerm.strayMark_ne_empty _))
  | many =>
    have hmark := FindTerm.oneLine_strayMark (show OneLine FindTerm.manyMark by decide)
    exact forall_mem_remarkIf (.fixed hP names_nowhere hmark (FindTerm.strayMark_ne_empty _))

theorem quotes_binding {b : Binding} (hb : b.toJson.EveryText P) :
    ∀ r ∈ (binding b).remarks, r.Quotes P := by
  cases b with
  | scalar var => exact forall_mem_remarkIf ⟨.behind hb (by decide), names_nowhere⟩
  | collection var =>
    have hvar : P var := (Json.everyText_arr _).mp hb (.str var) List.mem_cons_self
    exact forall_mem_remarkIf ⟨.behind hvar (by decide), names_index⟩
  | tuple names => exact forall_mem_remarkIf (.literal hP names_nowhere (by decide))
  | relation names => exact forall_mem_remarkIf (.literal hP names_nowhere (by decide))

theorem quotes_clause {c : Clause} (hc : c.toJson.EveryText P) :
    ∀ r ∈ (clause c).remarks, r.Quotes P := by
  cases c with
  | pattern items =>
    rw [Clause.toJson, Value.listToJson_eq_map, Json.everyText_arr, List.forall_mem_map] at hc
    exact Clause.quotes_patternRemarks hP hc
  | predicate call => simp [remarks, outline, Clause.outline, Outline.content]
  | function call b => simp [remarks, outline, Clause.outline, Outline.content]
  | rule usage => exact forall_mem_remarkIf (.literal hP names_nowhere (by decide))

/-- What is said of a part quotes a text of its wire form, and the names in the path are texts of
the wire form or fixed. -/
theorem quotes_of_mem_remarks {p : Part} (hp : p.wire.EveryText P) :
    ∀ r ∈ p.remarks, r.Quotes P := by
  cases p with
  | document d => exact quotes_remarks hP (everyText_sections hp).2.1
  | term find index t => exact quotes_term hP hp
  | pull p =>
    have hentity : P p.entity :=
      ((Json.everyText_obj _).mp hp ("entity", .str p.entity) (by simp)).2
    refine List.forall_mem_append.mpr ⟨?_, ?_⟩
    · exact forall_mem_remarkIf ⟨.behind hentity (by decide), names_field (hP _ (by decide))⟩
    · exact forall_mem_remarkIf (.literal hP (names_field (hP _ (by decide))) (by decide))
  | spec s =>
    rw [remarks_spec]
    exact s.quotes_remarks hP hp
  | binding b => exact quotes_binding hP hp
  | vars names =>
    intro r hr
    obtain ⟨⟨var, i⟩, hmem, hr⟩ := List.mem_flatMap.mp hr
    have hitem := List.mem_map_of_mem (f := Json.str) (List.fst_mem_of_mem_zipIdx hmem)
    have hvar : P var := (Json.everyText_arr _).mp hp (.str var) hitem
    exact forall_mem_remarkIf ⟨.behind hvar (by decide), names_index⟩ r hr
  | clause c => exact quotes_clause hP hp
  | call c => exact forall_mem_remarkIf (.literal hP names_index (by decide))

end Part

/-- An issue quotes a text of the document, and the names in its path are texts of the document or
fixed. -/
theorem quotes_of_mem_issues {d : Document} (hd : d.wire.EveryText P) {i : Issue}
    (hi : i ∈ d.issues) :
    Quotes P i.message ∧ i.path.location.EveryName P := by
  rw [← report_eq_issues, report_eq_found] at hi
  obtain ⟨node, hnode, location, q, hstands, r, hr, hlocation, hmessage⟩ :=
    (Part.found_iff_raises (.document d) [] _ _).mp ⟨i, hi, rfl, rfl⟩
  have hq := Part.meets_of_stands hP hstands hd
  have hremark := Part.quotes_of_mem_remarks hP hq.texts r hr
  rw [hmessage, hnode, hlocation, Path.location_nil, List.nil_append,
    Json.Location.everyName_append]
  exact ⟨hremark.message, hq.names, hremark.names⟩

end Document

end

end DatalogClient
