import DatalogClient.Proofs.Json.Location
import DatalogClient.Proofs.Outline.Findings

/-!
# Paths as locations

A path names a node of a tree, and it is told as the location of a node of a JSON value. Fields
and keys are names of members there, and steps that go nowhere are no steps.

What a tree finds is what its root holds and what its children find, each of them where it is
reached.

## Main definitions

* `Path.location` — the location that a path tells
* `OutlineStep.reachedAll` — the nodes that steps lead to, and their paths

## Main results

* `Path.ofText?_text` — paths are read back as locations
* `Outline.nestedInduction` — induction over trees and the nodes that are reached
* `OutlineStep.foundAll_eq_reached` — what steps find is what the nodes find that they reach
-/

namespace DatalogClient

/-! ### Locations of paths -/

namespace Segment

/-- The location of what lies one step away. -/
def location : Segment → Json.Location
  | nowhere => []
  | field name => [.member name]
  | key name => [.member name]
  | index n => [.item n]

@[simp] theorem location_nowhere : nowhere.location = [] := rfl

@[simp] theorem location_field (name : String) : (field name).location = [.member name] := rfl

@[simp] theorem location_key (name : String) : (key name).location = [.member name] := rfl

@[simp] theorem location_index (n : Nat) : (index n).location = [.item n] := rfl

end Segment

namespace Path

/-- The location that a path tells. -/
def location (path : Path) : Json.Location := path.flatMap Segment.location

@[simp] theorem location_nil : location [] = [] := rfl

@[simp] theorem location_extend (path : Path) (segment : Segment) :
    (path.extend segment).location = path.location ++ segment.location := by
  by_cases h : segment = .nowhere
  · rw [h, extend_nowhere, Segment.location_nowhere, List.append_nil]
  · rw [extend_eq_append h, location, location, List.flatMap_append, List.flatMap_singleton]

@[simp] theorem location_cons (segment : Segment) (rest : Path) :
    location (segment :: rest) = segment.location ++ rest.location := by
  rw [location, List.flatMap_cons]
  rfl

/-- Behind the first name, the text of a path is that of its location. -/
theorem toList_textFrom (path : Path) :
    (textFrom false path).toList = path.location.chars := by
  induction path with
  | nil => rfl
  | cons segment rest ih =>
    cases segment with
    | nowhere => exact ih
    | field name => simp [textFrom, Json.Location.chars, ih]
    | key name => simp [textFrom, Json.Location.chars, ih]
    | index n => simp [textFrom, Json.Location.chars, ih]

/-- Only the point before the first name is missing in the text of a path. -/
theorem toList_text {path : Path} {name : String} {rest : Json.Location}
    (h : path.location = .member name :: rest) :
    '.' :: path.text.toList = path.location.chars := by
  rw [text]
  induction path with
  | nil => cases h
  | cons segment tail ih =>
    cases segment with
    | nowhere => exact ih h
    | field name =>
      simp [textFrom, Json.Location.chars, toList_textFrom]
    | key name =>
      simp [textFrom, Json.Location.chars, toList_textFrom]
    | index n => cases h

/-- Paths that begin by a name are read back as locations, if these are legible. -/
theorem ofText?_text {path : Path} (h : path.location.Legible)
    (hhead : ∃ name rest, path.location = .member name :: rest ∧ name ≠ "") :
    Json.Location.ofText? path.text = some path.location := by
  have hfirst := hhead
  obtain ⟨name, rest, hlocation, -⟩ := hfirst
  exact Json.Location.ofText?_eq_some h hhead (toList_text hlocation)

end Path

/-! ### What is reached -/

variable {α : Type}

mutual

/-- The nodes that a step leads to where the path is, with their own paths. -/
def OutlineStep.reached (path : Path) : OutlineStep α → List (Path × Outline α)
  | .visit child segment => [(path.extend segment, child)]
  | .within segment steps => OutlineStep.reachedAll (path.extend segment) steps

/-- The nodes that several steps lead to. -/
def OutlineStep.reachedAll (path : Path) : List (OutlineStep α) → List (Path × Outline α)
  | [] => []
  | step :: rest => step.reached path ++ OutlineStep.reachedAll path rest

end

namespace OutlineStep

theorem reachedAll_eq_flatMap (path : Path) (steps : List (OutlineStep α)) :
    reachedAll path steps = steps.flatMap (reached path) := by
  induction steps with
  | nil => rfl
  | cons step rest ih => rw [reachedAll, ih, List.flatMap_cons]

@[simp] theorem reachedAll_nil (path : Path) :
    reachedAll path ([] : List (OutlineStep α)) = [] := by
  rw [reachedAll]

@[simp] theorem reachedAll_cons (path : Path) (step : OutlineStep α)
    (rest : List (OutlineStep α)) :
    reachedAll path (step :: rest) = step.reached path ++ reachedAll path rest := by
  rw [reachedAll]

@[simp] theorem reachedAll_append (path : Path) (steps others : List (OutlineStep α)) :
    reachedAll path (steps ++ others) = reachedAll path steps ++ reachedAll path others := by
  simp only [reachedAll_eq_flatMap, List.flatMap_append]

@[simp] theorem reached_visit (path : Path) (child : Outline α) (segment : Segment) :
    (visit child segment).reached path = [(path.extend segment, child)] := by
  rw [reached]

@[simp] theorem reached_within (path : Path) (segment : Segment) (steps : List (OutlineStep α)) :
    (within segment steps).reached path = reachedAll (path.extend segment) steps := by
  rw [reached]

/-- Items are reached by one step each. -/
theorem reachedAll_mapIdx {β : Type} (path : Path) (segment : Nat → Segment)
    (item : Nat → β → Outline α) (items : List β) :
    reachedAll path (items.mapIdx fun i b => .visit (item i b) (segment i)) =
      items.mapIdx fun i b => (path.extend (segment i), item i b) := by
  induction items generalizing segment item with
  | nil => rfl
  | cons b rest ih =>
    rw [List.mapIdx_cons, List.mapIdx_cons, reachedAll_cons, reached_visit, List.singleton_append]
    exact congrArg _ (ih (fun i => segment (i + 1)) fun i => item (i + 1))

/-- The items of a field are reached by the field and their indices. -/
@[simp] theorem reached_indexed (path : Path) (field : String) (items : List (Outline α)) :
    (indexed field items).reached path =
      items.mapIdx fun i item => ((path.extend (.field field)).extend (.index i), item) := by
  rw [indexed, reached_within, reachedAll_mapIdx _ Segment.index fun _ item => item]

end OutlineStep

mutual

/-- A step finds what the nodes find that it leads to. -/
theorem OutlineStep.found_eq_reached (path : Path) (step : OutlineStep (List Remark)) :
    step.found path = (step.reached path).flatMap fun node => node.2.found node.1 := by
  match step with
  | .visit child segment => rw [found, reached, List.flatMap_singleton]
  | .within segment steps => rw [found, reached, OutlineStep.foundAll_eq_reached]

/-- Steps find what the nodes find that they lead to. -/
theorem OutlineStep.foundAll_eq_reached (path : Path) (steps : List (OutlineStep (List Remark))) :
    OutlineStep.foundAll path steps =
      (OutlineStep.reachedAll path steps).flatMap fun node => node.2.found node.1 := by
  match steps with
  | [] => rw [OutlineStep.foundAll, OutlineStep.reachedAll, List.flatMap_nil]
  | step :: rest =>
    rw [OutlineStep.foundAll, OutlineStep.reachedAll, List.flatMap_append,
      OutlineStep.found_eq_reached path step, OutlineStep.foundAll_eq_reached path rest]

end

/-- Induction over trees: a statement about a tree may use the statement about every node that the
steps from its root lead to. -/
theorem Outline.nestedInduction {motive : Outline α → Prop}
    (node : ∀ content steps,
      (∀ path, ∀ reached ∈ OutlineStep.reachedAll path steps, motive reached.2) →
        motive (.node content steps))
    (tree : Outline α) : motive tree := by
  -- The recursor also speaks of steps and of lists of them.
  refine @Outline.rec α motive (fun step => ∀ path, ∀ reached ∈ step.reached path, motive reached.2)
    (fun steps => ∀ path, ∀ reached ∈ OutlineStep.reachedAll path steps, motive reached.2)
    node ?_ ?_ ?_ ?_ tree
  · intro child segment hchild path reached hreached
    rw [OutlineStep.reached_visit, List.mem_singleton] at hreached
    rw [hreached]
    exact hchild
  · intro segment steps hsteps path
    rw [OutlineStep.reached_within]
    exact hsteps _
  · simp
  · intro step rest hstep hrest path
    rw [OutlineStep.reachedAll_cons, List.forall_mem_append]
    exact ⟨hstep path, hrest path⟩

end DatalogClient
