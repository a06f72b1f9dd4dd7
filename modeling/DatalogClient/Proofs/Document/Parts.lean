import DatalogClient.Proofs.Document.Report
import DatalogClient.Proofs.Document.RoundTrip
import DatalogClient.Proofs.Outline.Locations

/-!
# The parts of a document and where they stand

A document is checked part by part. Each part has a wire form of its own, which stands somewhere
inside the wire form of the part that holds it. This tells the location of a part without the
paths of the check.

## Main definitions

* `Document.Part` — the parts of documents that are checked
* `Document.Part.children` — the parts that a part holds, with their locations in its wire form
* `Document.Part.Stands` — a part stands at a location of another, at any depth
* `Document.Part.Raises` — something is to be said at a location of a part

## Main results

* `Document.Part.reached_eq_children` — the paths of the check lead to where the children stand
* `Document.Part.found_iff_raises` — the check finds what is to be said of the parts, each at its
  location
-/

namespace DatalogClient

namespace Outline

variable {α : Type}

/-- What the root of a tree holds. -/
def content : Outline α → α
  | .node content _ => content

/-- The steps from the root of a tree. -/
def steps : Outline α → List (OutlineStep α)
  | .node _ steps => steps

end Outline

namespace Document

/-- A part of a document that is checked by itself. A term is checked among all terms. -/
inductive Part where
  | document (d : Document)
  | term (find : List FindTerm) (index : Nat) (t : FindTerm)
  | pull (p : Pull)
  | spec (s : AttrSpec)
  | binding (b : Binding)
  /-- The variables of a tuple or a relation. -/
  | vars (names : List String)
  | clause (c : Clause)
  | call (c : Call)

namespace Part

/-- The outline of a part. -/
def outline : Part → Outline (List Remark)
  | document d => d.outline
  | term find index t => t.outline find index
  | pull p => p.outline
  | spec s => s.outline
  | binding b => b.outline
  | vars names => Binding.varsOutline names
  | clause c => c.outline
  | call c => Clause.callOutline c

/-- What is to be said of a part, apart from the parts that it holds. -/
def remarks (p : Part) : List Remark := p.outline.content

theorem remarks_spec (s : AttrSpec) : (spec s).remarks = s.remarks := by
  cases s <;> rfl

/-- The wire form of a part. -/
def wire : Part → Json
  | document d => d.wire
  | term _ _ t => t.toJson
  | pull p => p.toJson
  | spec s => s.toJson
  | binding b => b.toJson
  | vars names => .arr (names.map .str)
  | clause c => c.toJson
  | call c => c.toJson

/-- The specs of a pattern that a member holds. -/
def pattern (member : String) (specs : List AttrSpec) : List (Json.Location × Part) :=
  specs.mapIdx fun i s => ([.member member, .item i], spec s)

/-- The parts that a part holds, and their locations in its wire form. -/
def children : Part → List (Json.Location × Part)
  | document d =>
    (d.find.mapIdx fun i t => ([.member "find", .item i], term d.find i t)) ++
      ((d.inputs.getD []).mapIdx fun i b => ([.member "in", .item i], binding b)) ++
      ((d.clauses.getD []).mapIdx fun i c => ([.member "where", .item i], clause c))
  | term _ _ (.var _) => []
  | term _ _ (.pull p) => [([], pull p)]
  | term _ _ .single => []
  | term _ _ .many => []
  | pull p => pattern "pull" p.pattern
  | spec (.name _) => []
  | spec .wildcard => []
  | spec (.option _) => []
  | spec (.map (.attrs entries)) => entries.flatMap fun entry => pattern entry.1 entry.2.specs
  | spec (.map (.keyed _ selector)) => pattern "selector" selector
  | binding (.scalar _) => []
  | binding (.tuple names) => [([], vars names)]
  | binding (.collection _) => []
  | binding (.relation names) => [([.item 0], vars names)]
  | vars _ => []
  | clause (.pattern _) => []
  | clause (.predicate c) => [([.item 0], call c)]
  | clause (.function c b) => [([.item 0], call c), ([.item 1], binding b)]
  | clause (.rule _) => []
  | call _ => []

/-- A part stands at a location of another: it is the other, or it stands in a part that the other
holds. -/
inductive Stands : Part → Json.Location → Part → Prop
  | here (p : Part) : Stands p [] p
  | inside {p q r : Part} {location inner : Json.Location} (hchild : (location, q) ∈ p.children)
      (hstands : Stands q inner r) : Stands p (location ++ inner) r

/-! ### What is found -/

theorem exists_mem_of_map_eq {α β γ : Type} {f : α → γ} {g : β → γ} {as : List α} {bs : List β}
    (h : as.map f = bs.map g) {a : α} (ha : a ∈ as) : ∃ b ∈ bs, g b = f a := by
  have hmem := List.mem_map_of_mem (f := f) ha
  rw [h] at hmem
  exact List.mem_map.mp hmem

theorem map_mapIdx {α β γ : Type} (f : Nat → α → β) (g : β → γ) (items : List α) :
    (items.mapIdx f).map g = items.mapIdx fun i a => g (f i a) := by
  rw [List.mapIdx_eq_zipIdx_map, List.mapIdx_eq_zipIdx_map, List.map_map]
  rfl

/-- The nodes of a pattern are reached where its specs stand. -/
theorem reachedAll_pattern (path : Path) (segment : Segment) (member : String)
    (hmember : segment.location = [.member member]) (specs : List AttrSpec) :
    (OutlineStep.reachedAll (path.extend segment) (AttrSpec.patternSteps 0 specs)).map
        (fun node => (node.1.location, node.2)) =
      (pattern member specs).map fun child => (path.location ++ child.1, child.2.outline) := by
  rw [AttrSpec.patternSteps_eq_mapIdx, OutlineStep.reachedAll_mapIdx, pattern, map_mapIdx,
    map_mapIdx]
  simp [hmember, outline]

/-- The nodes of a field are reached where the parts stand that its items are. -/
theorem reached_indexed {α : Type} (path : Path) (field : String) (part : Nat → α → Part)
    (items : List α) :
    ((OutlineStep.indexed field (items.mapIdx fun i a => (part i a).outline)).reached path).map
        (fun node => (node.1.location, node.2)) =
      (items.mapIdx fun i a => ([Json.Step.member field, .item i], part i a)).map
        fun child => (path.location ++ child.1, child.2.outline) := by
  rw [OutlineStep.reached_indexed, List.mapIdx_mapIdx, map_mapIdx, map_mapIdx]
  simp

/-- The nodes of a field that may be absent are reached where the parts stand, if there are any. -/
theorem reachedAll_stepsIf {α : Type} (path : Path) (field : String) (part : α → Part)
    (items : Option (List α)) :
    (OutlineStep.reachedAll path (stepsIf field (fun a => (part a).outline) items)).map
        (fun node => (node.1.location, node.2)) =
      ((items.getD []).mapIdx fun i a => ([Json.Step.member field, .item i], part a)).map
        fun child => (path.location ++ child.1, child.2.outline) := by
  cases items with
  | none => rfl
  | some items =>
    have hitems := reached_indexed path field (fun _ => part) items
    have hmap : items.map (fun a => (part a).outline) =
        items.mapIdx fun _ a => (part a).outline := by
      refine List.ext_getElem (by simp) ?_
      simp
    rw [stepsIf, OutlineStep.reachedAll_cons, OutlineStep.reachedAll_nil, List.append_nil,
      Option.getD_some, ← hitems, hmap]

/-- The nodes of entries are reached where the specs of their targets stand. -/
theorem reachedAll_entries (path : Path) (entries : List (String × MapTarget)) :
    (OutlineStep.reachedAll path (MapSpec.entrySteps entries)).map
        (fun node => (node.1.location, node.2)) =
      (entries.flatMap fun entry => pattern entry.1 entry.2.specs).map
        fun child => (path.location ++ child.1, child.2.outline) := by
  induction entries with
  | nil => rfl
  | cons entry rest ih =>
    obtain ⟨name, target⟩ := entry
    rw [MapSpec.entrySteps, OutlineStep.reachedAll_append, List.map_append, ih,
      List.flatMap_cons, List.map_append]
    cases target with
    | pattern specs =>
      have hpattern := reachedAll_pattern path (.key name) name rfl specs
      rw [MapTarget.specs, ← hpattern]
      simp [MapTarget.steps]
    | recursion limit => rfl

/-- From the root of a part's outline the outlines of its children are reached, each along a path
that tells where the child stands. -/
theorem reached_eq_children (p : Part) (path : Path) :
    (OutlineStep.reachedAll path p.outline.steps).map (fun node => (node.1.location, node.2)) =
      p.children.map fun child => (path.location ++ child.1, child.2.outline) := by
  cases p with
  | document d =>
    have hfind := reached_indexed path "find" (term d.find) d.find
    have hinputs := reachedAll_stepsIf path "in" binding d.inputs
    have hclauses := reachedAll_stepsIf path "where" clause d.clauses
    rw [children, List.map_append, List.map_append, ← hfind, ← hinputs, ← hclauses]
    simp only [outline, Document.outline, Outline.steps, OutlineStep.reachedAll_cons,
      OutlineStep.reachedAll_append, List.map_append, List.append_assoc]
  | term find index t =>
    cases t <;> simp [children, outline, FindTerm.outline, Outline.steps]
  | pull p =>
    have hpattern := reachedAll_pattern path (.field "pull") "pull" rfl p.pattern
    rw [children, ← hpattern]
    simp [outline, Pull.outline, Outline.steps]
  | spec s =>
    cases s with
    | name attr => simp [children, outline, AttrSpec.outline, Outline.steps]
    | wildcard => simp [children, outline, AttrSpec.outline, Outline.steps]
    | option o => simp [children, outline, AttrSpec.outline, Outline.steps]
    | map m =>
      cases m with
      | attrs entries =>
        rw [children, ← reachedAll_entries]
        rfl
      | keyed key selector =>
        have hpattern := reachedAll_pattern path (.field "selector") "selector" rfl selector
        rw [children, ← hpattern]
        simp [outline, AttrSpec.outline, MapSpec.steps, Outline.steps]
  | binding b =>
    cases b <;> simp [children, outline, Binding.outline, Outline.steps]
  | vars names => simp [children, outline, Binding.varsOutline, Outline.steps]
  | clause c =>
    cases c <;> simp [children, outline, Clause.outline, Outline.steps]
  | call c => simp [children, outline, Clause.callOutline, Outline.steps]

/-- Something is to be said at a location of a part, by itself or by a part that stands in it. -/
def Raises (p : Part) (node : Json.Location) (message : String) : Prop :=
  ∃ location q, p.Stands location q ∧
    ∃ r ∈ q.remarks, node = location ++ r.segment.location ∧ message = r.message

/-- What is to be said of a part is said of itself or of one that it holds. -/
theorem raises_iff {p : Part} {node : Json.Location} {message : String} :
    p.Raises node message ↔
      (∃ r ∈ p.remarks, node = r.segment.location ∧ message = r.message) ∨
        ∃ child ∈ p.children, ∃ inner, node = child.1 ++ inner ∧ child.2.Raises inner message := by
  constructor
  · intro h
    obtain ⟨location, q, hstands, r, hr, hnode, hmessage⟩ := h
    cases hstands with
    | here =>
      rw [List.nil_append] at hnode
      exact .inl ⟨r, hr, hnode, hmessage⟩
    | inside hchild hstands =>
      rw [List.append_assoc] at hnode
      exact .inr ⟨_, hchild, _, hnode, _, q, hstands, r, hr, rfl, hmessage⟩
  · intro h
    rcases h with ⟨r, hr, hnode, hmessage⟩ | ⟨child, hchild, inner, rfl, hraises⟩
    · exact ⟨[], p, .here p, r, hr, hnode, hmessage⟩
    · obtain ⟨location, q, hstands, r, hr, rfl, hmessage⟩ := hraises
      exact ⟨_, q, .inside hchild hstands, r, hr, (List.append_assoc _ _ _).symm, hmessage⟩

/-- The issues that are found in a part are what is to be said there, each at its location. -/
theorem found_iff_raises (p : Part) (path : Path) (node : Json.Location) (message : String) :
    (∃ i ∈ p.outline.found path, i.path.location = node ∧ i.message = message) ↔
      ∃ inner, node = path.location ++ inner ∧ p.Raises inner message := by
  -- The induction is on the outline: what is reached from its root are outlines of parts again.
  induction htree : p.outline using Outline.nestedInduction generalizing p path with
  | node content steps ih =>
    have hremarks : p.remarks = content := by
      rw [remarks, htree]
      rfl
    have hchildren := reached_eq_children p path
    rw [htree, Outline.steps] at hchildren
    have hreach := fun reached hreached => exists_mem_of_map_eq hchildren (a := reached) hreached
    have hhold := fun child hchild => exists_mem_of_map_eq hchildren.symm (a := child) hchild
    simp only [Prod.mk.injEq] at hreach hhold
    rw [Outline.found_node, OutlineStep.foundAll_eq_reached, ← hremarks]
    constructor
    · intro h
      obtain ⟨i, hi, rfl, rfl⟩ := h
      rcases List.mem_append.mp hi with hi | hi
      · obtain ⟨r, hr, rfl⟩ := List.mem_map.mp hi
        exact ⟨_, Path.location_extend path r.segment, raises_iff.mpr (.inl ⟨r, hr, rfl, rfl⟩)⟩
      · obtain ⟨reached, hreached, hi⟩ := List.mem_flatMap.mp hi
        obtain ⟨child, hchild, hlocation, houtline⟩ := hreach reached hreached
        obtain ⟨inner, hinner, hraises⟩ :=
          (ih path reached hreached child.2 reached.1 houtline).mp ⟨i, hi, rfl, rfl⟩
        refine ⟨child.1 ++ inner, ?_, raises_iff.mpr (.inr ⟨child, hchild, inner, rfl, hraises⟩)⟩
        rw [hinner, ← hlocation, List.append_assoc]
    · intro h
      obtain ⟨inner, rfl, h⟩ := h
      rcases raises_iff.mp h with ⟨r, hr, rfl, rfl⟩ | ⟨child, hchild, inner, rfl, hraises⟩
      · have hi := List.mem_map_of_mem (f := Remark.issue path) hr
        exact ⟨_, List.mem_append_left _ hi, Path.location_extend path r.segment, rfl⟩
      · obtain ⟨reached, hreached, hlocation, houtline⟩ := hhold child hchild
        have hnode : path.location ++ (child.1 ++ inner) = reached.1.location ++ inner := by
          rw [hlocation, List.append_assoc]
        obtain ⟨i, hi, hissue⟩ :=
          (ih path reached hreached child.2 reached.1 houtline.symm).mpr ⟨inner, hnode, hraises⟩
        exact ⟨i, List.mem_append_right _ (List.mem_flatMap.mpr ⟨reached, hreached, hi⟩), hissue⟩

end Part

end Document

end DatalogClient
