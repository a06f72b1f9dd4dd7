import DatalogClient.Outline.Issues

/-!
# Trees without issues

A walk that collects remarks passes every node of a tree, wherever the path has come to. So it
finds nothing exactly if no node has anything to say.

## Main definitions

* `Outline.Silent` — no node of a tree holds a remark

## Main results

* `Outline.kept_walk_eq_nil_iff` — a walk collects nothing exactly if the tree is silent
* `Outline.issues_eq_nil_iff` — the same of the issues of a tree
-/

namespace DatalogClient

mutual

/-- No node of the tree holds a remark. -/
def Outline.Silent : Outline (List Remark) → Prop
  | .node remarks steps => remarks = [] ∧ OutlineStep.AllSilent steps

/-- No node that the step reaches holds a remark. -/
def OutlineStep.Silent : OutlineStep (List Remark) → Prop
  | .visit child _ => child.Silent
  | .within _ steps => OutlineStep.AllSilent steps

/-- No node that the steps reach holds a remark. -/
def OutlineStep.AllSilent : List (OutlineStep (List Remark)) → Prop
  | [] => True
  | step :: rest => step.Silent ∧ OutlineStep.AllSilent rest

end

namespace OutlineStep

theorem allSilent_iff (steps : List (OutlineStep (List Remark))) :
    AllSilent steps ↔ ∀ step ∈ steps, step.Silent := by
  induction steps with
  | nil => simp [AllSilent]
  | cons step rest ih => simp [AllSilent, ih]

@[simp] theorem silent_visit (child : Outline (List Remark)) (segment : Segment) :
    (visit child segment).Silent ↔ child.Silent := by
  rw [Silent]

@[simp] theorem silent_within (segment : Segment) (steps : List (OutlineStep (List Remark))) :
    (within segment steps).Silent ↔ ∀ step ∈ steps, step.Silent := by
  rw [Silent, allSilent_iff]

/-- A field is silent if each of its items is. -/
@[simp] theorem silent_indexed (field : String) (items : List (Outline (List Remark))) :
    (indexed field items).Silent ↔ ∀ item ∈ items, item.Silent := by
  rw [indexed, silent_within]
  simp only [List.mem_mapIdx, forall_exists_index]
  constructor
  · intro h item hitem
    obtain ⟨i, hi, rfl⟩ := List.mem_iff_getElem.mp hitem
    exact (silent_visit _ _).mp (h _ i hi rfl)
  · intro h step i hi hstep
    subst hstep
    exact (silent_visit _ _).mpr (h _ (List.getElem_mem hi))

end OutlineStep

namespace Outline

@[simp] theorem silent_node (remarks : List Remark) (steps : List (OutlineStep (List Remark))) :
    (node remarks steps).Silent ↔ remarks = [] ∧ ∀ step ∈ steps, step.Silent := by
  rw [Silent, OutlineStep.allSilent_iff]

end Outline

/-! ### Walks -/

-- Issues are only added, so what has been kept so far stands beside what the walk adds to it.
mutual

/-- A walk that has found nothing goes on to find nothing exactly if the tree is silent. -/
theorem Outline.kept_walk_eq_nil_iff (tree : Outline (List Remark)) (segment : Segment)
    (w : Walk (List Issue)) :
    (tree.walk Visitor.remarks segment w).kept = [] ↔ w.kept = [] ∧ tree.Silent := by
  match tree with
  | .node remarks steps =>
    -- The path is pushed on entering and popped on leaving, and neither touches what is kept.
    have hkept : ((Outline.node remarks steps).walk Visitor.remarks segment w).kept =
        (OutlineStep.walkAll Visitor.remarks steps
          ((w.push segment).enter Visitor.remarks remarks)).kept := by
      rw [Outline.walk]
      split <;> rfl
    rw [hkept, OutlineStep.kept_walkAll_eq_nil_iff steps, Outline.Silent, ← and_assoc]
    simp [Walk.enter, Walk.push, Visitor.remarks]

/-- One step finds nothing exactly if what it reaches is silent. -/
theorem OutlineStep.kept_walk_eq_nil_iff (step : OutlineStep (List Remark))
    (w : Walk (List Issue)) :
    (step.walk Visitor.remarks w).kept = [] ↔ w.kept = [] ∧ step.Silent := by
  match step with
  | .visit child segment =>
    rw [OutlineStep.walk, Outline.kept_walk_eq_nil_iff child, OutlineStep.Silent]
  | .within segment steps =>
    rw [OutlineStep.walk, OutlineStep.Silent]
    exact OutlineStep.kept_walkAll_eq_nil_iff steps _

/-- Steps find nothing exactly if everything that they reach is silent. -/
theorem OutlineStep.kept_walkAll_eq_nil_iff (steps : List (OutlineStep (List Remark)))
    (w : Walk (List Issue)) :
    (OutlineStep.walkAll Visitor.remarks steps w).kept = [] ↔
      w.kept = [] ∧ OutlineStep.AllSilent steps := by
  match steps with
  | [] => simp [OutlineStep.walkAll, OutlineStep.AllSilent]
  | step :: rest =>
    rw [OutlineStep.walkAll, OutlineStep.kept_walkAll_eq_nil_iff rest,
      OutlineStep.kept_walk_eq_nil_iff step, OutlineStep.AllSilent, and_assoc]

end

/-- A tree has no issues exactly if it is silent. -/
theorem Outline.issues_eq_nil_iff (tree : Outline (List Remark)) :
    tree.issues = [] ↔ tree.Silent := by
  rw [issues, kept_walk_eq_nil_iff]
  simp

end DatalogClient
