import DatalogClient.Document.Validation
import DatalogClient.Proofs.Outline.Findings
import DatalogClient.Proofs.Pull.Inside

/-!
# What the check of a document tells

The check walks over the outline of a document. Outlines of documents are anchored: their stretches
begin by fields, or by the names of attributes. So the issues that the check tells are those found
in the outline part by part.

## Main definitions

* `Document.report` — the issues that the check tells

## Main results

* `Document.anchored_outline` — outlines of documents are anchored
* `Document.report_eq_found` — the check tells what is found in the outline
-/

namespace DatalogClient

/-! ### Outlines are anchored -/

namespace AttrSpec

/-- The specs of a pattern are visited in order, each under its index. -/
theorem patternSteps_eq_mapIdx (index : Nat) (specs : List AttrSpec) :
    patternSteps index specs =
      specs.mapIdx fun i s => .visit s.outline (.index (index + i)) := by
  induction specs generalizing index with
  | nil => rfl
  | cons s rest ih =>
    rw [patternSteps, ih, List.mapIdx_cons]
    simp only [Nat.add_zero, Nat.add_right_comm, Nat.add_assoc]

theorem anchored_patternSteps {specs : List AttrSpec} (index : Nat)
    (h : ∀ spec ∈ specs, spec.outline.Anchored) :
    ∀ step ∈ patternSteps index specs, step.Anchored := by
  intro step hstep
  rw [patternSteps_eq_mapIdx] at hstep
  obtain ⟨i, hi, rfl⟩ := List.mem_mapIdx.mp hstep
  rw [OutlineStep.anchored_visit]
  exact h _ (List.getElem_mem hi)

/-- The stretch behind an attribute begins by its name. -/
theorem anchored_targetSteps {target : MapTarget} (name : String)
    (h : ∀ spec ∈ target.specs, spec.outline.Anchored) :
    ∀ step ∈ target.steps name, step.Anchored := by
  cases target with
  | pattern specs =>
    rw [MapTarget.steps, List.forall_mem_singleton, OutlineStep.anchored_within]
    exact ⟨Segment.noConfusion, anchored_patternSteps 0 h⟩
  | recursion limit => simp [MapTarget.steps]

theorem anchored_entrySteps {entries : List (String × MapTarget)}
    (h : ∀ entry ∈ entries, ∀ spec ∈ entry.2.specs, spec.outline.Anchored) :
    ∀ step ∈ MapSpec.entrySteps entries, step.Anchored := by
  induction entries with
  | nil => simp [MapSpec.entrySteps]
  | cons entry rest ih =>
    obtain ⟨name, target⟩ := entry
    rw [List.forall_mem_cons] at h
    obtain ⟨htarget, hrest⟩ := h
    rw [MapSpec.entrySteps, List.forall_mem_append]
    exact ⟨anchored_targetSteps name htarget, ih hrest⟩

theorem anchored_outline (s : AttrSpec) : s.outline.Anchored := by
  induction s using nestedInduction with
  | name attr => simp [outline]
  | wildcard => simp [outline]
  | option o => simp [outline]
  | attrs entries ih =>
    rw [outline, Outline.anchored_node, MapSpec.steps]
    exact anchored_entrySteps ih
  | keyed key selector ih =>
    rw [outline, Outline.anchored_node, MapSpec.steps, List.forall_mem_singleton,
      OutlineStep.anchored_within]
    exact ⟨Segment.noConfusion, anchored_patternSteps 0 ih⟩

end AttrSpec

theorem Pull.anchored_outline (p : Pull) : p.outline.Anchored := by
  rw [outline, Outline.anchored_node, List.forall_mem_singleton, OutlineStep.anchored_within]
  exact ⟨Segment.noConfusion,
    AttrSpec.anchored_patternSteps 0 fun spec _ => spec.anchored_outline⟩

theorem FindTerm.anchored_outline (find : List FindTerm) (index : Nat) (t : FindTerm) :
    (t.outline find index).Anchored := by
  cases t <;> simp [outline, Pull.anchored_outline]

theorem Binding.anchored_outline (b : Binding) : b.outline.Anchored := by
  cases b <;> simp [outline, varsOutline]

theorem Clause.anchored_outline (c : Clause) : c.outline.Anchored := by
  cases c <;> simp [outline, callOutline, Binding.anchored_outline]

namespace Document

theorem anchored_stepsIf {α : Type} (field : String) {outline : α → Outline (List Remark)}
    (h : ∀ a, (outline a).Anchored) (items : Option (List α)) :
    ∀ step ∈ stepsIf field outline items, step.Anchored := by
  cases items with
  | none => simp [stepsIf]
  | some items =>
    rw [stepsIf, List.forall_mem_singleton]
    refine OutlineStep.anchored_indexed ?_
    intro item hitem
    obtain ⟨a, -, rfl⟩ := List.mem_map.mp hitem
    exact h a

/-- No stretch of a document's outline begins by a step that goes nowhere. -/
theorem anchored_outline (d : Document) : d.outline.Anchored := by
  have hfind : (OutlineStep.indexed "find"
      (d.find.mapIdx (FindTerm.outline d.find))).Anchored := by
    refine OutlineStep.anchored_indexed ?_
    intro item hitem
    obtain ⟨i, hi, rfl⟩ := List.mem_mapIdx.mp hitem
    exact FindTerm.anchored_outline d.find i _
  rw [outline, Outline.anchored_node, List.forall_mem_cons, List.forall_mem_append]
  exact ⟨hfind, anchored_stepsIf "in" Binding.anchored_outline d.inputs,
    anchored_stepsIf "where" Clause.anchored_outline d.clauses⟩

/-! ### The report -/

/-- The issues that the check of a document tells. -/
def report (d : Document) : List Issue :=
  match d.validate with
  | .ok () => []
  | .error e => e.issues

theorem report_eq_issues (d : Document) : d.report = d.issues := by
  rw [report, validate]
  cases hissues : d.issues <;> rfl

/-- The check tells what is found in the outline of the document. -/
theorem report_eq_found (d : Document) : d.report = d.outline.found [] := by
  rw [report_eq_issues, issues, Outline.issues_eq_found d.anchored_outline]

end Document

end DatalogClient
