import DatalogClient.Outline.Issues

/-!
# What a walk finds, part by part

A walk carries one path and one list of issues through a whole tree. Where no stretch begins by a
step that goes nowhere, it brings the path back as it was, and what it adds to the issues can be
told part by part: the remarks of a node, then what its steps lead to, each under its own path.

## Main definitions

* `Outline.Anchored` — no stretch of a tree begins by a step that goes nowhere
* `Outline.found` — the issues of a tree whose root has a path, told without a walk

## Main results

* `Outline.walk_remarks_eq` — a walk adds what is found and brings the path back
-/

namespace DatalogClient

/-- A step takes exactly itself off the path again, unless it goes nowhere. -/
theorem Path.dropLast_extend {path : Path} {segment : Segment} (h : segment ≠ .nowhere) :
    (path.extend segment).dropLast = path := by
  rw [Path.extend, if_neg h, List.dropLast_concat]

@[simp] theorem Path.extend_nowhere (path : Path) : path.extend .nowhere = path := by
  rw [Path.extend, if_pos rfl]

theorem Path.extend_eq_append {path : Path} {segment : Segment} (h : segment ≠ .nowhere) :
    path.extend segment = path ++ [segment] := by
  rw [Path.extend, if_neg h]

theorem Path.extend_field (path : Path) (name : String) :
    path.extend (.field name) = path ++ [.field name] :=
  extend_eq_append Segment.noConfusion

theorem Path.extend_key (path : Path) (name : String) :
    path.extend (.key name) = path ++ [.key name] :=
  extend_eq_append Segment.noConfusion

theorem Path.extend_index (path : Path) (n : Nat) :
    path.extend (.index n) = path ++ [.index n] :=
  extend_eq_append Segment.noConfusion

variable {α : Type}

mutual

/-- No stretch of the tree begins by a step that goes nowhere. -/
def Outline.Anchored : Outline α → Prop
  | .node _ steps => OutlineStep.AllAnchored steps

/-- No stretch behind the step begins by a step that goes nowhere. -/
def OutlineStep.Anchored : OutlineStep α → Prop
  | .visit child _ => child.Anchored
  | .within segment steps => segment ≠ .nowhere ∧ OutlineStep.AllAnchored steps

/-- No stretch behind the steps begins by a step that goes nowhere. -/
def OutlineStep.AllAnchored : List (OutlineStep α) → Prop
  | [] => True
  | step :: rest => step.Anchored ∧ OutlineStep.AllAnchored rest

end

mutual

/-- The issues of a tree whose root has the path. -/
def Outline.found (path : Path) : Outline (List Remark) → List Issue
  | .node remarks steps =>
    remarks.map (Remark.issue path) ++ OutlineStep.foundAll path steps

/-- The issues behind a step that is taken where the path is. -/
def OutlineStep.found (path : Path) : OutlineStep (List Remark) → List Issue
  | .visit child segment => child.found (path.extend segment)
  | .within segment steps => OutlineStep.foundAll (path.extend segment) steps

/-- The issues behind several steps. -/
def OutlineStep.foundAll (path : Path) : List (OutlineStep (List Remark)) → List Issue
  | [] => []
  | step :: rest => step.found path ++ OutlineStep.foundAll path rest

end

namespace OutlineStep

theorem allAnchored_iff (steps : List (OutlineStep α)) :
    AllAnchored steps ↔ ∀ step ∈ steps, step.Anchored := by
  induction steps with
  | nil => simp [AllAnchored]
  | cons step rest ih => simp [AllAnchored, ih]

@[simp] theorem anchored_visit (child : Outline α) (segment : Segment) :
    (visit child segment).Anchored ↔ child.Anchored := by
  rw [Anchored]

@[simp] theorem anchored_within (segment : Segment) (steps : List (OutlineStep α)) :
    (within segment steps).Anchored ↔
      segment ≠ .nowhere ∧ ∀ step ∈ steps, step.Anchored := by
  rw [Anchored, allAnchored_iff]

/-- A field is anchored if each of its items is. -/
theorem anchored_indexed {field : String} {items : List (Outline α)}
    (h : ∀ item ∈ items, item.Anchored) : (indexed field items).Anchored := by
  rw [indexed, anchored_within]
  refine ⟨Segment.noConfusion, ?_⟩
  intro step hstep
  obtain ⟨i, hi, rfl⟩ := List.mem_mapIdx.mp hstep
  exact (anchored_visit _ _).mpr (h _ (List.getElem_mem hi))

theorem foundAll_eq_flatMap (path : Path) (steps : List (OutlineStep (List Remark))) :
    foundAll path steps = steps.flatMap (found path) := by
  induction steps with
  | nil => rfl
  | cons step rest ih => rw [foundAll, ih, List.flatMap_cons]

@[simp] theorem foundAll_append (path : Path) (steps others : List (OutlineStep (List Remark))) :
    foundAll path (steps ++ others) = foundAll path steps ++ foundAll path others := by
  simp only [foundAll_eq_flatMap, List.flatMap_append]

@[simp] theorem foundAll_cons (path : Path) (step : OutlineStep (List Remark))
    (rest : List (OutlineStep (List Remark))) :
    foundAll path (step :: rest) = step.found path ++ foundAll path rest := by
  rw [foundAll]

@[simp] theorem foundAll_nil (path : Path) : foundAll path [] = [] := by
  rw [foundAll]

theorem found_visit (path : Path) (child : Outline (List Remark)) (segment : Segment) :
    (visit child segment).found path = child.found (path.extend segment) := by
  rw [found]

theorem found_within (path : Path) (segment : Segment)
    (steps : List (OutlineStep (List Remark))) :
    (within segment steps).found path = foundAll (path.extend segment) steps := by
  rw [found]

end OutlineStep

@[simp] theorem Outline.anchored_node (content : α) (steps : List (OutlineStep α)) :
    (node content steps).Anchored ↔ ∀ step ∈ steps, step.Anchored := by
  rw [Anchored, OutlineStep.allAnchored_iff]

theorem Outline.found_node (path : Path) (remarks : List Remark)
    (steps : List (OutlineStep (List Remark))) :
    (node remarks steps).found path =
      remarks.map (Remark.issue path) ++ OutlineStep.foundAll path steps := by
  rw [found]

/-! ### Walks -/

-- Whatever has been kept so far stands before what the walk adds, and the path is that of the walk
-- so far: both are arbitrary, so that the statements pass from one step to the next.
mutual

/-- A walk over a tree adds what is found there and brings the path back. -/
theorem Outline.walk_remarks_eq {tree : Outline (List Remark)} (h : tree.Anchored)
    (segment : Segment) (w : Walk (List Issue)) :
    tree.walk Visitor.remarks segment w =
      ⟨w.path, w.kept ++ tree.found (w.path.extend segment)⟩ := by
  match tree, h with
  | .node remarks steps, h =>
    rw [Outline.Anchored] at h
    have hsteps := OutlineStep.walkAll_remarks_eq h
      ((w.push segment).enter Visitor.remarks remarks)
    -- Leaving a node adds nothing, so only the path is left to bring back.
    have hleave : ∀ v : Walk (List Issue), v.leave Visitor.remarks remarks = v := fun _ => rfl
    rw [Outline.walk, hsteps, hleave, Outline.found]
    simp only [Walk.enter, Walk.push, Visitor.remarks, List.append_assoc]
    by_cases hsegment : segment = .nowhere
    · rw [if_pos hsegment, hsegment, Path.extend_nowhere]
    · rw [if_neg hsegment, Walk.pop, Path.dropLast_extend hsegment]

/-- One step adds what is found behind it and brings the path back. -/
theorem OutlineStep.walk_remarks_eq {step : OutlineStep (List Remark)} (h : step.Anchored)
    (w : Walk (List Issue)) :
    step.walk Visitor.remarks w = ⟨w.path, w.kept ++ step.found w.path⟩ := by
  match step, h with
  | .visit child segment, h =>
    rw [OutlineStep.Anchored] at h
    rw [OutlineStep.walk, Outline.walk_remarks_eq h, OutlineStep.found]
  | .within segment steps, h =>
    rw [OutlineStep.Anchored] at h
    obtain ⟨hsegment, hsteps⟩ := h
    rw [OutlineStep.walk, OutlineStep.walkAll_remarks_eq hsteps, OutlineStep.found, Walk.pop,
      Walk.push, Path.dropLast_extend hsegment]

/-- Steps add what is found behind each of them, in order, and bring the path back. -/
theorem OutlineStep.walkAll_remarks_eq {steps : List (OutlineStep (List Remark))}
    (h : OutlineStep.AllAnchored steps) (w : Walk (List Issue)) :
    OutlineStep.walkAll Visitor.remarks steps w =
      ⟨w.path, w.kept ++ OutlineStep.foundAll w.path steps⟩ := by
  match steps, h with
  | [], _ => rw [OutlineStep.walkAll, OutlineStep.foundAll, List.append_nil]
  | step :: rest, h =>
    rw [OutlineStep.AllAnchored] at h
    obtain ⟨hstep, hrest⟩ := h
    rw [OutlineStep.walkAll, OutlineStep.walk_remarks_eq hstep,
      OutlineStep.walkAll_remarks_eq hrest, OutlineStep.foundAll, List.append_assoc]

end

/-- The issues of a tree are what is found in it from an empty path on. -/
theorem Outline.issues_eq_found {tree : Outline (List Remark)} (h : tree.Anchored) :
    tree.issues = tree.found [] := by
  rw [Outline.issues, Outline.walk_remarks_eq h, List.nil_append, Path.extend_nowhere]

end DatalogClient
