import DatalogClient.Proofs.Document.Parts

/-!
# Paths lead to what they are about

The path of an issue, read as a location, leads to the node of the document's value where the
issue was raised. Paths of different nodes are different texts. Both are so as long as the names of
the attributes that a map spec follows differ, and no bracket opens in them.

Where an issue is raised is told without its path: parts hold parts, the wire form of each stands
inside that of the part that holds it, and what is to be said of a part is about the part or about
something one step inside it.

## Main definitions

* `Document.Legible` — the names that map specs follow differ and hold no opening bracket
* `Document.Part.LeadsTo` — a location leads from a part to one that stands there
* `Document.Raises` — an issue is raised at a location of a document's value

## Main results

* `Document.Part.leadsTo_of_stands` — where a part stands its wire form stands
* `Document.Part.shows_of_mem_remarks` — what is said of a part is about something in it
* `Document.report_locates` — where issues are raised, where their paths lead, and which differ
-/

namespace DatalogClient

/-- The condition on a spec, apart from the specs inside it: the names of its entries differ, and no
bracket opens in them. -/
def AttrSpec.LegibleHere : AttrSpec → Prop
  | .name _ => True
  | .wildcard => True
  | .option _ => True
  | .map (.attrs entries) =>
    (entries.map (·.1)).Nodup ∧ ∀ entry ∈ entries, '[' ∉ entry.1.toList
  | .map (.keyed _ _) => True

/-- The names that map specs follow can be told from each other, at every depth. -/
def Pull.Legible (p : Pull) : Prop := ∀ s ∈ p.pattern, s.Every AttrSpec.LegibleHere

theorem Pull.Legible.entriesDiffer {p : Pull} (h : p.Legible) :
    ∀ s ∈ p.pattern, s.Every AttrSpec.EntriesDiffer := by
  intro s hs
  refine AttrSpec.Every.imp ?_ (h s hs)
  intro s hlegible
  cases s with
  | map spec =>
    cases spec with
    | attrs entries => exact hlegible.1
    | keyed key selector => trivial
  | name _ | wildcard | option _ => trivial

namespace Document

/-- The names that map specs follow can be told from each other, in every pull. -/
def Legible (d : Document) : Prop := ∀ p, .pull p ∈ d.find → p.Legible

namespace Part

/-- The names that map specs follow inside the part can be told from each other. -/
def Legible : Part → Prop
  | document d => d.Legible
  | term _ _ t => ∀ p, t = .pull p → p.Legible
  | pull p => p.Legible
  | spec s => s.Every AttrSpec.LegibleHere
  | binding _ => True
  | vars _ => True
  | clause _ => True
  | call _ => True

/-- A location leads from a part to one that it holds: the wire form of the held part stands there,
and steps inside it may follow. -/
structure LeadsTo (p : Part) (location : Json.Location) (q : Part) : Prop where
  at_eq : p.wire.at? location = some q.wire
  legible : q.Legible
  followed : ∀ inner : Json.Location, inner.Legible → Json.Location.Legible (location ++ inner)

/-- The items of a list that a member holds stand in it by their indices. -/
theorem leadsTo_items {α : Type} {p : Part} {member : String} {write : α → Json}
    {part : Nat → α → Part} {items : List α} (hwrite : ∀ i a, (part i a).wire = write a)
    (hwire : items ≠ [] → p.wire.inside? (.member member) = some (.arr (items.map write)))
    (hmember : '[' ∉ member.toList) (hitems : ∀ (i : Nat), ∀ a ∈ items, (part i a).Legible) :
    ∀ child ∈ items.mapIdx (fun i a => ([Json.Step.member member, .item i], part i a)),
      p.LeadsTo child.1 child.2 := by
  intro child hchild
  obtain ⟨i, hi, rfl⟩ := List.mem_mapIdx.mp hchild
  -- An empty list may be left out of the wire form, but this one has an item.
  have hne : items ≠ [] := List.ne_nil_of_length_pos (Nat.zero_lt_of_lt hi)
  refine ⟨?_, hitems i _ (List.getElem_mem hi), fun inner hinner => ⟨hmember, hinner⟩⟩
  rw [Json.at?_cons, hwire hne, Option.bind_some, Json.at?_cons, Json.inside?_item, hwrite]
  simp [hi]

/-- The specs of a pattern that a member holds stand in it by their indices. -/
theorem leadsTo_pattern {p : Part} {member : String} {specs : List AttrSpec}
    (hwire : specs ≠ [] →
      p.wire.inside? (.member member) = some (.arr (specs.map AttrSpec.toJson)))
    (hmember : '[' ∉ member.toList) (hspecs : ∀ s ∈ specs, s.Every AttrSpec.LegibleHere) :
    ∀ child ∈ pattern member specs, p.LeadsTo child.1 child.2 :=
  leadsTo_items (fun _ _ => rfl) hwire hmember fun _ => hspecs

/-- The items of a section that may be absent stand in it by their indices. -/
theorem leadsTo_section {α : Type} {p : Part} {member : String} {write : α → Json}
    {part : α → Part} {items : Option (List α)} (hwrite : ∀ a, (part a).wire = write a)
    (hwire : p.wire.inside? (.member member) = items.map fun items => .arr (items.map write))
    (hmember : '[' ∉ member.toList) (hitems : ∀ a, (part a).Legible) :
    ∀ child ∈ (items.getD []).mapIdx (fun i a => ([Json.Step.member member, .item i], part a)),
      p.LeadsTo child.1 child.2 := by
  refine leadsTo_items (fun _ => hwrite) ?_ hmember fun _ a _ => hitems a
  intro hne
  cases items with
  | none => exact absurd rfl hne
  | some items => exact hwire

/-- What stands in the sections of a document. -/
theorem inside?_wire (d : Document) :
    d.wire.inside? (.member "find") = some (.arr (d.find.map FindTerm.toJson)) ∧
      d.wire.inside? (.member "keys") = (d.keys.map fun keys => .arr (keys.map .str)) ∧
      d.wire.inside? (.member "in") = (d.inputs.map fun bs => .arr (bs.map Binding.toJson)) ∧
      d.wire.inside? (.member "where") = (d.clauses.map fun cs => .arr (cs.map Clause.toJson)) ∧
      d.wire.inside? (.member "args") = (d.args.map fun vs => .arr (vs.map Value.toJson)) := by
  simp [Document.wire, Json.lookup_cons, Json.lookup_append, lookup_memberIf]

/-- A pattern stands under the name of its attribute, if no other entry has that name. -/
theorem inside?_attrs {entries : List (String × MapTarget)} (hnames : (entries.map (·.1)).Nodup)
    {entry : String × MapTarget} (hentry : entry ∈ entries) (hne : entry.2.specs ≠ []) :
    (spec (.map (.attrs entries))).wire.inside? (.member entry.1) =
      some (.arr (entry.2.specs.map AttrSpec.toJson)) := by
  have hmembers : ((MapSpec.entriesToJson entries).map (·.1)).Nodup := by
    rwa [MapSpec.entriesToJson_eq_map, List.map_map]
  rw [wire, AttrSpec.toJson, MapSpec.toJson, Json.inside?_member,
    Json.lookup_eq_some_iff hmembers, MapSpec.entriesToJson_eq_map]
  refine List.mem_map.mpr ⟨entry, hentry, ?_⟩
  obtain ⟨name, target⟩ := entry
  cases target with
  | pattern specs => simp [MapTarget.toJson, MapTarget.specs]
  | recursion limit => exact absurd rfl hne

/-- A part that has the very wire form of another stands at the same place. -/
theorem leadsTo_nil {p q : Part} (hwire : p.wire = q.wire) (hq : q.Legible) : p.LeadsTo [] q := by
  refine ⟨?_, hq, fun inner hinner => hinner⟩
  rw [Json.at?_nil, hwire]

/-- A part that is an item of a list stands there by its index. -/
theorem leadsTo_item {p q : Part} {items : List Json} {index : Nat} (hwire : p.wire = .arr items)
    (hitem : items[index]? = some q.wire) (hq : q.Legible) : p.LeadsTo [.item index] q := by
  refine ⟨?_, hq, fun inner hinner => hinner⟩
  rw [hwire, Json.at?_cons, Json.inside?_item, hitem]
  rfl

theorem leadsTo_document {d : Document} (hd : (document d).Legible) :
    ∀ child ∈ (document d).children, (document d).LeadsTo child.1 child.2 := by
  obtain ⟨hfind, -, hin, hwhere, -⟩ := inside?_wire d
  rw [children, List.forall_mem_append, List.forall_mem_append, and_assoc]
  refine ⟨?_, ?_, ?_⟩
  · refine leadsTo_items (fun _ _ => rfl) (fun _ => hfind) (by decide) ?_
    intro i t ht q hq
    exact hd q (hq ▸ ht)
  · exact leadsTo_section (fun _ => rfl) hin (by decide) fun _ => trivial
  · exact leadsTo_section (fun _ => rfl) hwhere (by decide) fun _ => trivial

theorem leadsTo_map {m : MapSpec} (hm : (spec (.map m)).Legible) :
    ∀ child ∈ (spec (.map m)).children, (spec (.map m)).LeadsTo child.1 child.2 := by
  cases m with
  | attrs entries =>
    obtain ⟨⟨hnames, hbrackets⟩, hinside⟩ := (AttrSpec.every_attrs entries).mp hm
    intro child hchild
    -- Names differ, so the member that is found under a name is the entry's own.
    obtain ⟨entry, hentry, hmem⟩ := List.mem_flatMap.mp hchild
    exact leadsTo_pattern (inside?_attrs hnames hentry) (hbrackets entry hentry)
      (hinside entry hentry) child hmem
  | keyed key selector =>
    obtain ⟨-, hinside⟩ := (AttrSpec.every_keyed key selector).mp hm
    refine leadsTo_pattern (fun _ => ?_) (by decide) hinside
    simp [wire, AttrSpec.toJson, MapSpec.toJson, Json.lookup_cons]

theorem leadsTo_binding (b : Binding) :
    ∀ child ∈ (binding b).children, (binding b).LeadsTo child.1 child.2 := by
  cases b with
  | scalar var => simp [children]
  | collection var => simp [children]
  | tuple names =>
    rw [children, List.forall_mem_singleton]
    exact leadsTo_nil rfl trivial
  | relation names =>
    rw [children, List.forall_mem_singleton]
    exact leadsTo_item rfl rfl trivial

theorem leadsTo_clause (c : Clause) :
    ∀ child ∈ (clause c).children, (clause c).LeadsTo child.1 child.2 := by
  cases c with
  | pattern items => simp [children]
  | predicate c =>
    rw [children, List.forall_mem_singleton]
    exact leadsTo_item rfl rfl trivial
  | function c b =>
    rw [children, List.forall_mem_cons, List.forall_mem_singleton]
    exact ⟨leadsTo_item rfl rfl trivial, leadsTo_item rfl rfl trivial⟩
  | rule usage => simp [children]

/-- Children stand where they are said to stand. -/
theorem leadsTo_children {p : Part} (hp : p.Legible) :
    ∀ child ∈ p.children, p.LeadsTo child.1 child.2 := by
  cases p with
  | document d => exact leadsTo_document hp
  | term find index t =>
    cases t with
    | var text => simp [children]
    | pull p =>
      rw [children, List.forall_mem_singleton]
      exact leadsTo_nil rfl (hp p rfl)
    | single => simp [children]
    | many => simp [children]
  | pull p =>
    refine leadsTo_pattern (fun _ => ?_) (by decide) hp
    simp [wire, Pull.toJson, Json.lookup_cons]
  | spec s =>
    cases s with
    | name attr => simp [children]
    | wildcard => simp [children]
    | option o => simp [children]
    | map m => exact leadsTo_map hp
  | binding b => exact leadsTo_binding b
  | vars names => simp [children]
  | clause c => exact leadsTo_clause c
  | call c => simp [children]

/-! ### What remarks are about -/

/-- A remark is about something that stands in the wire form of the part. -/
def Shows (p : Part) (r : Remark) : Prop :=
  r.segment.location.Legible ∧ (p.wire.at? r.segment.location).isSome = true

theorem shows_here {p : Part} {r : Remark} (h : r.segment = .nowhere) : p.Shows r := by
  rw [Shows, h]
  exact ⟨trivial, rfl⟩

theorem shows_member {p : Part} {r : Remark} {name : String}
    (h : r.segment.location = [.member name]) (hname : '[' ∉ name.toList)
    (hwire : (p.wire.inside? (.member name)).isSome = true) : p.Shows r := by
  rw [Shows, h]
  refine ⟨hname, ?_⟩
  simpa using hwire

theorem shows_item {p : Part} {r : Remark} {items : List Json} {index : Nat}
    (hwire : p.wire = .arr items) (h : r.segment = .index index) (hindex : index < items.length) :
    p.Shows r := by
  rw [Shows, h, hwire]
  refine ⟨trivial, ?_⟩
  simp [hindex]

theorem eq_of_mem_remarkIf {condition : Bool} {remark r : Remark}
    (h : r ∈ remarkIf condition remark) : r = remark := by
  cases condition with
  | true => exact List.mem_singleton.mp h
  | false => cases h

theorem segment_of_mem_keyRemarks {seen keys : List String} {r : Remark}
    (h : r ∈ keyRemarks seen keys) : r.segment = .field "keys" := by
  induction keys generalizing seen with
  | nil => cases h
  | cons key rest ih =>
    rw [keyRemarks] at h
    split_ifs at h
    · rcases List.mem_cons.mp h with rfl | h
      · rfl
      · exact ih h
    · rcases List.mem_cons.mp h with rfl | h
      · rfl
      · exact ih h
    · exact ih h

/-- What is said of a document is about one of its sections, and about one that is there. -/
theorem exists_section_of_mem_remarks {d : Document} {r : Remark} (h : r ∈ d.remarks) :
    ∃ name ∈ ["find", "keys", "args"], r.segment = .field name ∧
      (d.wire.inside? (.member name)).isSome = true := by
  obtain ⟨hfind, hkeys, -, -, hargs⟩ := inside?_wire d
  rcases List.mem_append.mp h with h | h
  · rcases List.mem_append.mp h with h | h
    · refine ⟨"find", by simp, by rw [eq_of_mem_remarkIf h], ?_⟩
      rw [hfind]
      rfl
    · split at h
      · rename_i keys hd
        have hsegment : r.segment = .field "keys" := by
          rcases List.mem_append.mp h with h | h
          · rw [eq_of_mem_remarkIf h]
          · exact segment_of_mem_keyRemarks h
        refine ⟨"keys", by simp, hsegment, ?_⟩
        rw [hkeys, hd]
        rfl
      · cases h
  · split at h
    · rename_i args inputs hd _
      refine ⟨"args", by simp, by rw [eq_of_mem_remarkIf h], ?_⟩
      rw [hargs, hd]
      rfl
    · cases h

theorem shows_document (d : Document) : ∀ r ∈ d.remarks, (document d).Shows r := by
  intro r hr
  obtain ⟨name, hname, hsegment, hwire⟩ := exists_section_of_mem_remarks hr
  have hbracket : ∀ name ∈ ["find", "keys", "args"], '[' ∉ name.toList := by decide
  exact shows_member (by rw [hsegment, Segment.location_field]) (hbracket name hname) hwire

/-- What is said of an option is about its attribute or its argument. -/
theorem shows_option (o : AttrOption) : ∀ r ∈ o.remarks, (spec (.option o)).Shows r := by
  have hwire : (spec (.option o)).wire =
      .arr [.str o.attr, .str o.kind.label, o.kind.argument] := rfl
  rw [AttrOption.remarks, List.forall_mem_append]
  constructor
  · intro r hr
    rw [eq_of_mem_remarkIf hr]
    exact shows_item hwire rfl (by simp)
  · intro r hr
    split at hr
    · rw [eq_of_mem_remarkIf hr]
      exact shows_item hwire rfl (by simp)
    · rw [eq_of_mem_remarkIf hr]
      exact shows_item hwire rfl (by simp)
    · cases hr

theorem segment_of_mem_entryRemarks {entry : String × MapTarget} {r : Remark}
    (h : r ∈ MapSpec.entryRemarks entry) : r.segment = .key entry.1 := by
  rcases List.mem_append.mp h with h | h
  · rw [eq_of_mem_remarkIf h]
  · split at h
    · rw [eq_of_mem_remarkIf h]
    · rw [eq_of_mem_remarkIf h]
    · cases h

/-- What is said of a spec is about it, about one of its entries, or about a part of it. -/
theorem shows_spec {s : AttrSpec} (hs : s.Every AttrSpec.LegibleHere) :
    ∀ r ∈ s.remarks, (spec s).Shows r := by
  match s with
  | .name attr =>
    intro r hr
    rw [eq_of_mem_remarkIf hr]
    exact shows_here rfl
  | .wildcard => simp [AttrSpec.remarks]
  | .option o => exact shows_option o
  | .map (.attrs entries) =>
    rw [AttrSpec.remarks, List.forall_mem_append]
    constructor
    · intro r hr
      rw [eq_of_mem_remarkIf hr]
      exact shows_here rfl
    · intro r hr
      obtain ⟨entry, hentry, hmem⟩ := List.mem_flatMap.mp hr
      have hsegment := segment_of_mem_entryRemarks hmem
      obtain ⟨⟨-, hbrackets⟩, -⟩ := (AttrSpec.every_attrs entries).mp hs
      refine shows_member (by rw [hsegment, Segment.location_key]) (hbrackets entry hentry) ?_
      -- It is enough that some member has the name.
      rw [wire, AttrSpec.toJson, MapSpec.toJson, Json.inside?_member, Option.isSome_iff_ne_none,
        Ne, Json.lookup_eq_none_iff, not_not, MapSpec.entriesToJson_eq_map, List.map_map]
      exact List.mem_map.mpr ⟨entry, hentry, rfl⟩
  | .map (.keyed key selector) =>
    have hwire : ∀ name, name = "key" ∨ name = "selector" →
        ((spec (.map (.keyed key selector))).wire.inside? (.member name)).isSome = true := by
      rintro name (rfl | rfl)
      · rfl
      · rfl
    rw [AttrSpec.remarks, List.forall_mem_append]
    constructor
    · intro r hr
      rw [eq_of_mem_remarkIf hr]
      exact shows_member rfl (by decide) (hwire "key" (.inl rfl))
    · intro r hr
      rw [eq_of_mem_remarkIf hr]
      exact shows_member rfl (by decide) (hwire "selector" (.inr rfl))

/-- What is said of the variables of a tuple or a relation is about one of them. -/
theorem shows_vars (names : List String) : ∀ r ∈ (vars names).remarks, (vars names).Shows r := by
  intro r hr
  obtain ⟨⟨var, i⟩, hmem, hr⟩ := List.mem_flatMap.mp hr
  obtain ⟨hi, -⟩ := List.getElem?_eq_some_iff.mp (List.mk_mem_zipIdx_iff_getElem?.mp hmem)
  rw [eq_of_mem_remarkIf hr]
  exact shows_item rfl rfl (by simpa using hi)

/-- What is said of a pattern is about it or about one of its positions. -/
theorem shows_pattern (items : List Value) :
    ∀ r ∈ Clause.patternRemarks items, (clause (.pattern items)).Shows r := by
  have hwire : (clause (.pattern items)).wire = .arr (items.map Value.toJson) := by
    rw [wire, Clause.toJson, Value.listToJson_eq_map]
  -- A position behind the source is an item of the list, one later if there is a source.
  have hposition : ∀ (i : Nat) (remarks : Value → List Remark),
      (∀ v, ∀ r ∈ remarks v, r.segment = .index (Clause.sourceOffset items + i)) →
      ∀ r ∈ (items.drop (Clause.sourceOffset items))[i]?.toList.flatMap remarks,
        (clause (.pattern items)).Shows r := by
    intro i remarks hremarks r hr
    obtain ⟨v, hv, hr⟩ := List.mem_flatMap.mp hr
    rw [Option.mem_toList, List.getElem?_drop] at hv
    obtain ⟨hi, -⟩ := List.getElem?_eq_some_iff.mp hv
    exact shows_item hwire (hremarks v r hr) (by simpa using hi)
  intro r hr
  rw [Clause.patternRemarks] at hr
  split_ifs at hr
  · rw [List.mem_singleton.mp hr]
    exact shows_here rfl
  · rw [List.mem_append, List.mem_append] at hr
    rcases hr with (hr | hr) | hr
    · refine hposition 1 _ ?_ r hr
      intro v r hr
      rw [Clause.attrRemarks.eq_def] at hr
      split at hr
      · rw [eq_of_mem_remarkIf hr]
      · cases hr
      · cases hr
      · rw [List.mem_singleton.mp hr]
    · refine hposition 3 _ ?_ r hr
      intro v r hr
      rw [eq_of_mem_remarkIf hr]
    · refine hposition 4 _ ?_ r hr
      intro v r hr
      rw [eq_of_mem_remarkIf hr]

/-- What is said of a term is about the term as a whole. -/
theorem shows_term (find : List FindTerm) (index : Nat) (t : FindTerm) :
    ∀ r ∈ (term find index t).remarks, (term find index t).Shows r := by
  intro r hr
  refine shows_here ?_
  cases t with
  | var text => rw [eq_of_mem_remarkIf hr, here]
  | pull p => cases hr
  | single => rw [eq_of_mem_remarkIf hr, here]
  | many => rw [eq_of_mem_remarkIf hr, here]

/-- What is said of a binding is about it, or about the variable of a collection. -/
theorem shows_binding (b : Binding) : ∀ r ∈ (binding b).remarks, (binding b).Shows r := by
  intro r hr
  cases b with
  | scalar var =>
    rw [eq_of_mem_remarkIf hr]
    exact shows_here rfl
  | tuple names =>
    rw [eq_of_mem_remarkIf hr]
    exact shows_here rfl
  | collection var =>
    rw [eq_of_mem_remarkIf hr]
    exact shows_item rfl rfl (by simp)
  | relation names =>
    rw [eq_of_mem_remarkIf hr]
    exact shows_here rfl

/-- Of a clause only a pattern and a rule have something said of them by themselves. -/
theorem shows_clause (c : Clause) : ∀ r ∈ (clause c).remarks, (clause c).Shows r := by
  intro r hr
  cases c with
  | pattern items => exact shows_pattern items r hr
  | predicate call => cases hr
  | function call b => cases hr
  | rule usage =>
    rw [eq_of_mem_remarkIf hr]
    exact shows_here rfl

/-- What is said of a part is about something in it. -/
theorem shows_of_mem_remarks {p : Part} (hp : p.Legible) : ∀ r ∈ p.remarks, p.Shows r := by
  cases p with
  | document d => exact shows_document d
  | term find index t => exact shows_term find index t
  | pull p =>
    intro r hr
    rcases List.mem_append.mp hr with hr | hr
    · rw [eq_of_mem_remarkIf hr]
      exact shows_member rfl (by decide) rfl
    · rw [eq_of_mem_remarkIf hr]
      exact shows_member rfl (by decide) rfl
  | spec s =>
    rw [remarks_spec]
    exact shows_spec hp
  | binding b => exact shows_binding b
  | vars names => exact shows_vars names
  | clause c => exact shows_clause c
  | call c =>
    intro r hr
    rw [eq_of_mem_remarkIf hr]
    exact shows_item rfl rfl (by simp)

/-- A part leads to every part that stands in it, step by step. -/
theorem leadsTo_of_stands {p q : Part} {location : Json.Location} (hp : p.Legible)
    (h : p.Stands location q) : p.LeadsTo location q := by
  induction h with
  | here p => exact leadsTo_nil rfl hp
  | inside hchild hstands ih =>
    -- What a legible part holds is legible, so that the induction can go on from there.
    have hleads := leadsTo_children hp _ hchild
    have hinner := ih hleads.legible
    refine ⟨?_, hinner.legible, ?_⟩
    · rw [Json.at?_append, hleads.at_eq, Option.bind_some, hinner.at_eq]
    · intro inner hlegible
      rw [List.append_assoc]
      exact hleads.followed _ (hinner.followed inner hlegible)

end Part

/-! ### Documents -/

/-- An issue is raised at a location of a document's value: the message is to be said there of a
part whose wire form stands in the value. -/
def Raises (d : Document) (node : Json.Location) (message : String) : Prop :=
  ∃ location q, (Part.document d).Stands location q ∧ d.toJson.at? location = some q.wire ∧
    ∃ r ∈ q.remarks, node = location ++ r.segment.location ∧ message = r.message

/-- All issues are raised in the sections of a document. -/
theorem exists_member_of_raises {d : Document} {node : Json.Location} {message : String}
    (h : (Part.document d).Raises node message) :
    ∃ name rest, node = .member name :: rest ∧ name ≠ "" := by
  rcases Part.raises_iff.mp h with ⟨r, hr, rfl, -⟩ | ⟨child, hchild, inner, rfl, -⟩
  · obtain ⟨name, hname, hsegment, -⟩ := Part.exists_section_of_mem_remarks hr
    have hne : ∀ name ∈ ["find", "keys", "args"], name ≠ "" := by decide
    exact ⟨name, [], by rw [hsegment, Segment.location_field], hne name hname⟩
  · simp only [Part.children, List.mem_append] at hchild
    rcases hchild with (hchild | hchild) | hchild
    · obtain ⟨i, -, rfl⟩ := List.mem_mapIdx.mp hchild
      exact ⟨"find", _, rfl, by decide⟩
    · obtain ⟨i, -, rfl⟩ := List.mem_mapIdx.mp hchild
      exact ⟨"in", _, rfl, by decide⟩
    · obtain ⟨i, -, rfl⟩ := List.mem_mapIdx.mp hchild
      exact ⟨"where", _, rfl, by decide⟩

/-- In a document whose names can be told from each other, parts stand where their wire forms
stand. -/
theorem raises_iff {d : Document} (hd : d.Legible) {node : Json.Location} {message : String} :
    d.Raises node message ↔ (Part.document d).Raises node message := by
  constructor
  · intro h
    obtain ⟨location, q, hstands, -, hremark⟩ := h
    exact ⟨location, q, hstands, hremark⟩
  · intro h
    obtain ⟨location, q, hstands, hremark⟩ := h
    have hleads := Part.leadsTo_of_stands (p := .document d) hd hstands
    refine ⟨location, q, hstands, ?_, hremark⟩
    rw [toJson_eq_wire fun p hp => (hd p hp).entriesDiffer]
    exact hleads.at_eq

/-- Where an issue is raised there is something, and the location can be told from its text. -/
theorem legible_of_raises {d : Document} (hd : d.Legible) {node : Json.Location}
    {message : String} (h : d.Raises node message) :
    node.Legible ∧ (d.toJson.at? node).isSome = true := by
  obtain ⟨location, q, hstands, hat, r, hr, rfl, -⟩ := h
  have hleads := Part.leadsTo_of_stands (p := .document d) hd hstands
  obtain ⟨hlegible, hthere⟩ := Part.shows_of_mem_remarks hleads.legible r hr
  refine ⟨hleads.followed _ hlegible, ?_⟩
  rw [Json.at?_append, hat]
  exact hthere

/-- The issues that are raised are those that are reported, each under the path of the location
where it is raised. A path is read back as the location, and leads to something in the value of the
document; and paths of different locations are different texts. -/
theorem report_locates {d : Document} (hd : d.Legible) :
    (∀ node message, d.Raises node message ↔
        ∃ i ∈ d.report, i.path.location = node ∧ i.message = message) ∧
      (∀ i ∈ d.report, Json.Location.ofText? i.path.text = some i.path.location ∧
        (d.toJson.at? i.path.location).isSome = true) ∧
      ∀ i ∈ d.report, ∀ j ∈ d.report,
        i.path.location ≠ j.path.location → i.path.text ≠ j.path.text := by
  have hraises : ∀ node message, d.Raises node message ↔
      ∃ i ∈ d.report, i.path.location = node ∧ i.message = message := by
    intro node message
    have hfound := Part.found_iff_raises (.document d) [] node message
    simp only [Path.location_nil, List.nil_append, exists_eq_left'] at hfound
    rw [raises_iff hd, report_eq_found]
    exact hfound.symm
  have hread : ∀ i ∈ d.report, Json.Location.ofText? i.path.text = some i.path.location ∧
      (d.toJson.at? i.path.location).isSome = true := by
    intro i hi
    have hraised := (hraises _ _).mpr ⟨i, hi, rfl, rfl⟩
    obtain ⟨hlegible, hthere⟩ := legible_of_raises hd hraised
    have hhead := exists_member_of_raises ((raises_iff hd).mp hraised)
    exact ⟨Path.ofText?_text hlegible hhead, hthere⟩
  refine ⟨hraises, hread, ?_⟩
  -- Both texts are read back, so one text has one location.
  intro i hi j hj hne htext
  have hi' := (hread i hi).1
  rw [htext, (hread j hj).1, Option.some_inj] at hi'
  exact hne hi'.symm

/-- A document with faults of its pull, its inputs and its clauses. The name of an attribute that
is followed holds points. -/
def dottedNames : Document where
  find := [.pull ⟨[.map (.attrs [("a.b/c.d", .pattern [.name "x.y"]),
    ("e", .recursion (.depth 0))])], "?e"⟩]
  inputs := some [.relation ["?x", "y"]]
  clauses := some [.function ⟨"", []⟩ (.collection "z"),
    .pattern [.text "$", .text "?e", .text "plain"]]

theorem dottedNames_located :
    dottedNames.Legible ∧
      (dottedNames.report.map fun i => i.path.text) =
        ["find[0].pull[0].e", "find[0].pull[0].e", "find[0].pull[0].a.b/c.d[0]", "in[0][0][1]",
          "where[0][0][0]", "where[0][1][0]", "where[1][2]"] ∧
      ∀ i ∈ dottedNames.report, Json.Location.ofText? i.path.text = some i.path.location ∧
        (dottedNames.toJson.at? i.path.location).isSome = true := by
  have hlegible : dottedNames.Legible := by
    intro p hp
    simp only [dottedNames, List.mem_singleton, FindTerm.pull.injEq] at hp
    subst hp
    simp [Pull.Legible, AttrSpec.LegibleHere, AttrSpec.Every, MapSpec.EveryInside,
      MapSpec.EveryEntry, MapTarget.EveryInside, AttrSpec.EveryItem]
  exact ⟨hlegible, rfl, (report_locates hlegible).2.1⟩

end Document

end DatalogClient
