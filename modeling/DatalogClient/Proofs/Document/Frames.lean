import DatalogClient.Proofs.Document.Report
import Mathlib.Algebra.Order.Group.Multiset
import Mathlib.Tactic.Abel

/-!
# Violations that do not disturb each other

A frame is a document with one place left open: for a clause, for the binding of an input, or for
an element of a pull pattern at any depth. What the check reports of a filled frame consists of what
it reports of the part in the place, as if it came to the part alone and along the path of the
place, and of a rest. The rest is the same whatever stands in the place.

## Main definitions

* `AttrSpec.Frame`, `Document.Frame` — specs and documents with a place left open
* `Document.reported`, `Outline.reportedAt` — the paths and messages told of a document, and of a
  part alone
* `Surrounds` — lists of issues of which a part depends on what varies, and the rest does not

## Main results

* `Document.Frame.surrounds_found` — in a filled frame only the part in the place matters
* `Document.reported_fill_add` — parts in a place are exchanged without any other effect
-/

namespace DatalogClient

/-! ### What varies, and what stands around it -/

/-- A list with a place in it is not empty. -/
theorem isEmpty_append_cons {β : Type} (left right : List β) (b : β) :
    (left ++ b :: right).isEmpty = false := by
  simp

section Surrounds

variable {α : Type} {whole part inner : α → List Issue}

/-- The whole is the part with something before and after it that never changes. -/
def Surrounds (whole part : α → List Issue) : Prop :=
  ∃ before after, ∀ a, whole a = before ++ part a ++ after

namespace Surrounds

theorem refl (part : α → List Issue) : Surrounds part part :=
  ⟨[], [], fun a => by simp⟩

theorem trans (h : Surrounds whole part) (h' : Surrounds part inner) : Surrounds whole inner := by
  obtain ⟨before, after, hwhole⟩ := h
  obtain ⟨left, right, hpart⟩ := h'
  refine ⟨before ++ left, right ++ after, ?_⟩
  intro a
  rw [hwhole, hpart]
  simp only [List.append_assoc]

/-- Something may come before it, if it is always the same. -/
theorem append_left {extra : α → List Issue} (c : List Issue) (hextra : ∀ a, extra a = c)
    (h : Surrounds whole part) : Surrounds (fun a => extra a ++ whole a) part := by
  obtain ⟨before, after, hwhole⟩ := h
  refine ⟨c ++ before, after, ?_⟩
  intro a
  change extra a ++ whole a = _
  rw [hextra, hwhole]
  simp only [List.append_assoc]

/-- Something may come after it, if it is always the same. -/
theorem append_right {extra : α → List Issue} (c : List Issue) (hextra : ∀ a, extra a = c)
    (h : Surrounds whole part) : Surrounds (fun a => whole a ++ extra a) part := by
  obtain ⟨before, after, hwhole⟩ := h
  refine ⟨before, after ++ c, ?_⟩
  intro a
  change whole a ++ extra a = _
  rw [hextra, hwhole]
  simp only [List.append_assoc]

end Surrounds

/-- Of several steps only one varies, and that is a visit. -/
theorem surrounds_visit (path : Path) (before after : List (OutlineStep (List Remark)))
    (child : α → Outline (List Remark)) (n : Nat) :
    Surrounds
      (fun a => OutlineStep.foundAll path (before ++ .visit (child a) (.index n) :: after))
      (fun a => (child a).found (path ++ [.index n])) := by
  simp only [OutlineStep.foundAll_append, OutlineStep.foundAll_cons, OutlineStep.found_visit,
    Path.extend_index]
  exact .append_left _ (fun _ => rfl) (.append_right _ (fun _ => rfl) (.refl _))

/-- Of the items of a field only one varies. -/
theorem surrounds_indexed (path : Path) (field : String) (left right : List (Outline (List Remark)))
    (item : α → Outline (List Remark)) :
    Surrounds (fun a => (OutlineStep.indexed field (left ++ item a :: right)).found path)
      (fun a => (item a).found (path ++ [.field field, .index left.length])) := by
  have hplace : path ++ [.field field, .index left.length] =
      path ++ [.field field] ++ [.index left.length] := by
    simp
  simp only [OutlineStep.indexed, OutlineStep.found_within, List.mapIdx_append, List.mapIdx_cons,
    Nat.zero_add, Path.extend_field, hplace]
  exact surrounds_visit _ _ _ item left.length

/-- Of the specs of a pattern only one varies. -/
theorem surrounds_pattern (path : Path) (left right : List AttrSpec) (spec : α → AttrSpec) :
    Surrounds (fun a => OutlineStep.foundAll path
        (AttrSpec.patternSteps 0 (left ++ spec a :: right)))
      (fun a => (spec a).outline.found (path ++ [.index left.length])) := by
  simp only [AttrSpec.patternSteps_eq_mapIdx, List.mapIdx_append, List.mapIdx_cons, Nat.zero_add]
  exact surrounds_visit _ _ _ (fun a => (spec a).outline) left.length

end Surrounds

/-! ### Specs with an open place -/

/-- A spec of which one element of a pattern is left open, at any depth. -/
inductive AttrSpec.Frame where
  /-- The spec as a whole is open. -/
  | place
  /-- The place lies in the pattern behind an attribute. -/
  | entry (before : List (String × MapTarget)) (attr : String) (left : List AttrSpec)
      (inner : Frame) (right : List AttrSpec) (after : List (String × MapTarget))
  /-- The place lies in the pattern of a selector. -/
  | selector (key : MapKey) (left : List AttrSpec) (inner : Frame) (right : List AttrSpec)

namespace AttrSpec.Frame

/-- The spec with an element in the place. -/
def fill : Frame → AttrSpec → AttrSpec
  | place, s => s
  | entry before attr left inner right after, s =>
    .map (.attrs (before ++ (attr, .pattern (left ++ inner.fill s :: right)) :: after))
  | selector key left inner right, s => .map (.keyed key (left ++ inner.fill s :: right))

/-- The steps from the spec to the place. -/
def path : Frame → Path
  | place => []
  | entry _ attr left inner _ _ => .key attr :: .index left.length :: inner.path
  | selector _ left inner _ => .field "selector" :: .index left.length :: inner.path

theorem entrySteps_append (entries others : List (String × MapTarget)) :
    MapSpec.entrySteps (entries ++ others) =
      MapSpec.entrySteps entries ++ MapSpec.entrySteps others := by
  induction entries with
  | nil => rfl
  | cons entry rest ih => simp [MapSpec.entrySteps, ih]

/-- What is found in a filled frame is what is found in the place, and a rest. -/
theorem surrounds_found (frame : Frame) (path : Path) :
    Surrounds (fun s => (frame.fill s).outline.found path)
      (fun s => s.outline.found (path ++ frame.path)) := by
  induction frame generalizing path with
  | place =>
    simp only [fill, Frame.path, List.append_nil]
    exact .refl _
  | entry before attr left inner right after ih =>
    -- A pattern with a place is never empty, so the remarks on the map spec never change.
    have hremarks : ∀ s, ((entry before attr left inner right after).fill s).remarks =
        ((entry before attr left inner right after).fill .wildcard).remarks := by
      intro s
      simp [fill, remarks, MapSpec.entryRemarks, isEmpty_append_cons]
    have hplace : path ++ (entry before attr left inner right after).path =
        path ++ [.key attr] ++ [.index left.length] ++ inner.path := by
      simp [Frame.path]
    have hpattern := surrounds_pattern (path ++ [.key attr]) left right inner.fill
    have hinner := ih (path ++ [.key attr] ++ [.index left.length])
    simp only [fill, outline, Outline.found_node, MapSpec.steps, entrySteps_append,
      MapSpec.entrySteps, MapTarget.steps, List.singleton_append, OutlineStep.foundAll_append,
      OutlineStep.foundAll_cons, OutlineStep.found_within, Path.extend_key, hplace]
    refine .append_left _ (fun s => congrArg _ (hremarks s)) ?_
    refine .append_left _ (fun _ => rfl) ?_
    exact .append_right _ (fun _ => rfl) (hpattern.trans hinner)
  | selector key left inner right ih =>
    have hremarks : ∀ s, ((selector key left inner right).fill s).remarks =
        ((selector key left inner right).fill .wildcard).remarks := by
      intro s
      simp [fill, remarks, isEmpty_append_cons]
    have hplace : path ++ (selector key left inner right).path =
        path ++ [.field "selector"] ++ [.index left.length] ++ inner.path := by
      simp [Frame.path]
    have hpattern := surrounds_pattern (path ++ [.field "selector"]) left right inner.fill
    have hinner := ih (path ++ [.field "selector"] ++ [.index left.length])
    simp only [fill, outline, Outline.found_node, MapSpec.steps, OutlineStep.foundAll_cons,
      OutlineStep.foundAll_nil, List.append_nil, OutlineStep.found_within, Path.extend_field,
      hplace]
    refine .append_left _ (fun s => congrArg _ (hremarks s)) ?_
    exact hpattern.trans hinner

end AttrSpec.Frame

namespace Document

/-! ### Documents with an open place -/

/-- The places of a document that may be left open. -/
inductive Place where
  | clause
  | input
  | spec

/-- What fits a place. -/
def Place.Part : Place → Type
  | .clause => Clause
  | .input => Binding
  | .spec => AttrSpec

/-- The outline of what fits a place. -/
def Place.outline : (place : Place) → place.Part → Outline (List Remark)
  | .clause => Clause.outline
  | .input => Binding.outline
  | .spec => AttrSpec.outline

/-- A document of which one part is left open. Its other sections are those of a document. -/
inductive Frame : Place → Type where
  | clause (d : Document) (left right : List Clause) : Frame .clause
  | input (d : Document) (left right : List Binding) : Frame .input
  /-- The place lies in the pattern of a pull among the terms. -/
  | spec (d : Document) (before : List FindTerm) (entity : String) (left : List AttrSpec)
      (inner : AttrSpec.Frame) (right : List AttrSpec) (after : List FindTerm) : Frame .spec

namespace Frame

variable {place : Place}

/-- The document with a part in the place. -/
def fill : {place : Place} → Frame place → place.Part → Document
  | _, .clause d left right => fun c : Clause => { d with clauses := some (left ++ c :: right) }
  | _, .input d left right => fun b : Binding => { d with inputs := some (left ++ b :: right) }
  | _, .spec d before entity left inner right after => fun s : AttrSpec =>
    { d with find := before ++ .pull ⟨left ++ inner.fill s :: right, entity⟩ :: after }

/-- The steps from the document to the place. -/
def path : {place : Place} → Frame place → Path
  | _, .clause _ left _ => [.field "where", .index left.length]
  | _, .input _ left _ => [.field "in", .index left.length]
  | _, .spec _ before _ left inner _ _ =>
    [.field "find", .index before.length, .field "pull", .index left.length] ++ inner.path

/-- Which pull stands among the terms does not matter to the outlines of the others. -/
theorem termOutline_pull (before after : List FindTerm) (p q : Pull) :
    FindTerm.outline (before ++ .pull p :: after) =
      FindTerm.outline (before ++ .pull q :: after) := by
  have hends : ∀ index, FindTerm.endsPair (before ++ .pull p :: after) index =
      FindTerm.endsPair (before ++ .pull q :: after) index := by
    intro index
    match before with
    | [] => simp [FindTerm.endsPair]
    | first :: rest => cases first <;> simp [FindTerm.endsPair]
  funext index t
  cases t with
  | var text => rfl
  | pull r => rfl
  | single => simp only [FindTerm.outline, hends]
  | many => simp only [FindTerm.outline, hends]

/-- What is found in a pull with an open place is what is found in the place, and a rest. -/
theorem surrounds_pull (path : Path) (entity : String) (left right : List AttrSpec)
    (inner : AttrSpec.Frame) :
    Surrounds (fun s => (Pull.outline ⟨left ++ inner.fill s :: right, entity⟩).found path)
      (fun s => s.outline.found
        (path ++ ([.field "pull", .index left.length] ++ inner.path))) := by
  have hpattern := surrounds_pattern (path ++ [.field "pull"]) left right inner.fill
  have hinner := inner.surrounds_found (path ++ [.field "pull"] ++ [.index left.length])
  have hplace : path ++ ([.field "pull", .index left.length] ++ inner.path) =
      path ++ [.field "pull"] ++ [.index left.length] ++ inner.path := by
    simp
  simp only [Pull.outline, Outline.found_node, isEmpty_append_cons, OutlineStep.foundAll_cons,
    OutlineStep.foundAll_nil, List.append_nil, OutlineStep.found_within, Path.extend_field, hplace]
  exact .append_left _ (fun _ => rfl) (hpattern.trans hinner)

/-- What is found in a document is what is found in one of its clauses, and a rest. -/
theorem surrounds_clause (d : Document) (left right : List Clause) :
    Surrounds (fun c => ((clause d left right).fill c).outline.found [])
      (fun c : Clause => c.outline.found [.field "where", .index left.length]) := by
  have hitems := surrounds_indexed [] "where" (left.map Clause.outline)
    (right.map Clause.outline) Clause.outline
  rw [List.length_map, List.nil_append] at hitems
  simp only [fill, Document.outline, Outline.found_node, stepsIf, List.map_append,
    OutlineStep.foundAll_cons, OutlineStep.foundAll_append, OutlineStep.foundAll_nil,
    List.append_nil]
  -- Nothing else in the document knows of its clauses.
  refine .append_left (d.remarks.map (Remark.issue [])) (fun _ => rfl) ?_
  refine .append_left _ (fun _ => rfl) ?_
  exact .append_left _ (fun _ => rfl) hitems

/-- What is found in a document is what is found in the binding of one input, and a rest. -/
theorem surrounds_input (d : Document) (left right : List Binding) :
    Surrounds (fun b => ((input d left right).fill b).outline.found [])
      (fun b : Binding => b.outline.found [.field "in", .index left.length]) := by
  -- The remarks on a document know how many inputs there are, and no more of them.
  have hremarks : ∀ b : Binding, ((input d left right).fill b).remarks =
      ((input d left right).fill (Binding.scalar "")).remarks := by
    intro b
    obtain ⟨find, keys, inputs, clauses, args⟩ := d
    cases args <;> simp [fill, remarks]
  have hitems := surrounds_indexed [] "in" (left.map Binding.outline)
    (right.map Binding.outline) Binding.outline
  rw [List.length_map, List.nil_append] at hitems
  simp only [fill, Document.outline, Outline.found_node, stepsIf, List.map_append,
    OutlineStep.foundAll_cons, OutlineStep.foundAll_append, OutlineStep.foundAll_nil,
    List.append_nil]
  refine .append_left _ (fun b => congrArg _ (hremarks b)) (.append_left _ (fun _ => rfl) ?_)
  exact .append_right _ (fun _ => rfl) hitems

/-- What is found in a document is what is found in an element of one of its pulls, and a rest. -/
theorem surrounds_spec (d : Document) (before : List FindTerm) (entity : String)
    (left : List AttrSpec) (inner : AttrSpec.Frame) (right : List AttrSpec)
    (after : List FindTerm) :
    Surrounds (fun s => ((spec d before entity left inner right after).fill s).outline.found [])
      (fun s : AttrSpec => s.outline.found
        (spec d before entity left inner right after).path) := by
  -- Neither the remarks on the document nor the outlines of the other terms look into a pull.
  have hremarks : ∀ s : AttrSpec,
      ((spec d before entity left inner right after).fill s).remarks =
        ((spec d before entity left inner right after).fill AttrSpec.wildcard).remarks := by
    intro s
    simp only [fill, remarks, isEmpty_append_cons, List.length_append, List.length_cons]
  have hterms : ∀ p, (before ++ .pull p :: after).mapIdx
        (FindTerm.outline (before ++ .pull p :: after)) =
      before.mapIdx (FindTerm.outline (before ++ .pull ⟨[], ""⟩ :: after)) ++
        .node [] [.visit p.outline .nowhere] ::
          after.mapIdx fun i => FindTerm.outline (before ++ .pull ⟨[], ""⟩ :: after)
            (i + 1 + before.length) := by
    intro p
    rw [termOutline_pull before after p ⟨[], ""⟩, List.mapIdx_append, List.mapIdx_cons]
    rfl
  have hterm := surrounds_indexed [] "find"
    (before.mapIdx (FindTerm.outline (before ++ .pull ⟨[], ""⟩ :: after)))
    (after.mapIdx fun i => FindTerm.outline (before ++ .pull ⟨[], ""⟩ :: after)
      (i + 1 + before.length))
    fun s => .node [] [.visit (Pull.outline ⟨left ++ inner.fill s :: right, entity⟩) .nowhere]
  rw [List.length_mapIdx, List.nil_append] at hterm
  -- The term adds nothing to its pull, neither a remark nor a step.
  simp only [Outline.found_node, List.map_nil, OutlineStep.foundAll_cons,
    OutlineStep.foundAll_nil, List.append_nil, List.nil_append, OutlineStep.found_visit,
    Path.extend_nowhere] at hterm
  have hpull := surrounds_pull [.field "find", .index before.length] entity left right inner
  simp only [fill, Document.outline, Outline.found_node, hterms, OutlineStep.foundAll_cons]
  refine .append_left _ (fun s => congrArg _ (hremarks s)) ?_
  exact .append_right _ (fun _ => rfl) (hterm.trans hpull)

/-- What is found in a filled document is what is found in the place, and a rest. -/
theorem surrounds_found (frame : Frame place) :
    Surrounds (fun part => (frame.fill part).outline.found [])
      (fun part => (place.outline part).found frame.path) := by
  cases frame with
  | clause d left right => exact surrounds_clause d left right
  | input d left right => exact surrounds_input d left right
  | spec d before entity left inner right after =>
    exact surrounds_spec d before entity left inner right after

end Frame

end Document

/-! ### Reports -/

/-- Paths and messages that are told of a part that is walked over alone, where the path is. -/
def Outline.reportedAt (tree : Outline (List Remark)) (path : Path) :
    Multiset (String × String) :=
  Issue.pairs (tree.walk Visitor.remarks .nowhere ⟨path, []⟩).kept

namespace Document

/-- Paths and messages that are told of a document. -/
def reported (d : Document) : Multiset (String × String) := Issue.pairs d.report

theorem coe_pairs (issues : List Issue) :
    (Issue.pairs issues : Multiset (String × String)) =
      issues.map fun i => (i.path.text, i.message) :=
  Multiset.coe_eq_coe.mpr (List.mergeSort_perm _ _)

theorem Place.reportedAt_eq {place : Place} (part : place.Part) (path : Path) :
    (place.outline part).reportedAt path =
      ((place.outline part).found path).map fun i => (i.path.text, i.message) := by
  have hanchored : (place.outline part).Anchored := by
    cases place with
    | clause => exact Clause.anchored_outline part
    | input => exact Binding.anchored_outline part
    | spec => exact AttrSpec.anchored_outline part
  rw [Outline.reportedAt, coe_pairs, Outline.walk_remarks_eq hanchored, List.nil_append,
    Path.extend_nowhere]

/-- Parts in a place are exchanged without any other effect: what is reported with one of them in
the place, and of the other alone, is what is reported with the other in the place, and of the
first alone. -/
theorem reported_fill_add {place : Place} (frame : Frame place) (a b : place.Part) :
    (frame.fill a).reported + (place.outline b).reportedAt frame.path =
      (frame.fill b).reported + (place.outline a).reportedAt frame.path := by
  obtain ⟨before, after, hfound⟩ := frame.surrounds_found
  simp only [reported, coe_pairs, report_eq_found, hfound, Place.reportedAt_eq, List.map_append,
    ← Multiset.coe_add]
  abel

end Document

end DatalogClient
