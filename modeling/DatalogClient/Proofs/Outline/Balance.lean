import DatalogClient.Proofs.Outline.Findings
import Mathlib.Data.List.DropRight
import Mathlib.Data.List.TakeDrop

/-!
# What a walk meets

A walk over a tree meets the same nodes, each with the same path, whatever its visitor does with
them. A stretch that begins by a step that goes nowhere takes one step from the path that it has not
added, and all paths behind it go astray. So a walk brings the path back, and has one path on
entering a node and on leaving it, exactly in trees without such stretches.

## Main definitions

* `Encounter` — entering or leaving a node
* `Outline.losses` — how many steps a walk takes from the path for good
* `Outline.tour` — what a walk meets
* `Outline.Rounds` — each node is entered and left once, in nested order, with one path
* `Outline.Balanced` — a walk brings the path back and goes in rounds

## Main results

* `Outline.walk_eq` — a walk in full, for every tree and every visitor
* `Outline.balanced_iff` — which walks are balanced
-/

namespace DatalogClient

variable {α σ : Type}

/-- A node is entered or left where the path is. -/
inductive Encounter (α : Type) where
  | entered (content : α) (path : Path)
  | left (content : α) (path : Path)

/-- What a visitor keeps after an encounter. -/
def Visitor.meet (v : Visitor α σ) (kept : σ) : Encounter α → σ
  | .entered content path => v.enter content path kept
  | .left content path => v.leave content path kept

/-- The visitor that writes down all that it meets. -/
def Visitor.diary : Visitor α (List (Encounter α)) where
  enter content path kept := kept ++ [.entered content path]
  leave content path kept := kept ++ [.left content path]

theorem Visitor.foldl_meet_diary (kept encounters : List (Encounter α)) :
    encounters.foldl diary.meet kept = kept ++ encounters := by
  induction encounters generalizing kept with
  | nil => rw [List.foldl_nil, List.append_nil]
  | cons encounter rest ih =>
    have hmeet : diary.meet kept encounter = kept ++ [encounter] := by cases encounter <;> rfl
    rw [List.foldl_cons, hmeet, ih, List.append_assoc, List.singleton_append]

mutual

/-- The number of stretches that begin by a step that goes nowhere. -/
def Outline.losses : Outline α → Nat
  | .node _ steps => OutlineStep.lossesAll steps

/-- The number of such stretches behind a step. -/
def OutlineStep.losses : OutlineStep α → Nat
  | .visit child _ => child.losses
  | .within segment steps =>
    OutlineStep.lossesAll steps + if segment = .nowhere then 1 else 0

/-- The number of such stretches behind several steps. -/
def OutlineStep.lossesAll : List (OutlineStep α) → Nat
  | [] => 0
  | step :: rest => step.losses + OutlineStep.lossesAll rest

end

mutual

/-- What a walk meets in a tree whose root it enters where the path is. -/
def Outline.tour (path : Path) : Outline α → List (Encounter α)
  | .node content steps =>
    .entered content path :: OutlineStep.tourAll path steps ++
      [.left content (path.rdrop (OutlineStep.lossesAll steps))]

/-- What a walk meets behind a step that it takes where the path is. -/
def OutlineStep.tour (path : Path) : OutlineStep α → List (Encounter α)
  | .visit child segment => child.tour (path.extend segment)
  | .within segment steps => OutlineStep.tourAll (path.extend segment) steps

/-- What a walk meets behind several steps. -/
def OutlineStep.tourAll (path : Path) : List (OutlineStep α) → List (Encounter α)
  | [] => []
  | step :: rest => step.tour path ++ OutlineStep.tourAll (path.rdrop step.losses) rest

end

mutual

/-- The root is entered first and left last, with one path, and what is met in between is met in
rounds of the nodes below. -/
def Outline.Rounds : Outline α → List (Encounter α) → Prop
  | .node content steps, encounters =>
    ∃ path inner, encounters = .entered content path :: inner ++ [.left content path] ∧
      OutlineStep.RoundsAll steps inner

/-- What is met behind a step is met in rounds. -/
def OutlineStep.Rounds : OutlineStep α → List (Encounter α) → Prop
  | .visit child _, encounters => child.Rounds encounters
  | .within _ steps, encounters => OutlineStep.RoundsAll steps encounters

/-- What is met behind several steps is met in rounds, one step after the other. -/
def OutlineStep.RoundsAll : List (OutlineStep α) → List (Encounter α) → Prop
  | [], encounters => encounters = []
  | step :: rest, encounters =>
    ∃ first others, encounters = first ++ others ∧ step.Rounds first ∧
      OutlineStep.RoundsAll rest others

end

/-- Whatever the visitor, a walk brings the path back, and it enters and leaves each node once, in
nested order, with the same path at both. -/
structure Outline.Balanced (tree : Outline α) (segment : Segment) (path : Path) : Prop where
  restores : ∀ {σ : Type} (v : Visitor α σ) (kept : σ),
    (tree.walk v segment ⟨path, kept⟩).path = path
  rounds : ∃ encounters, tree.Rounds encounters ∧ ∀ {σ : Type} (v : Visitor α σ) (kept : σ),
    (tree.walk v segment ⟨path, kept⟩).kept = encounters.foldl v.meet kept

/-! ### Walks in full -/

namespace Path

theorem dropLast_rdrop (path : Path) (n : Nat) :
    List.dropLast (path.rdrop n) = path.rdrop (n + 1) := by
  rw [List.rdrop, List.dropLast_eq_take, List.take_take, List.length_take, List.rdrop]
  congr 1
  omega

theorem rdrop_rdrop (path : Path) (m n : Nat) :
    List.rdrop (path.rdrop m) n = path.rdrop (m + n) := by
  induction n with
  | zero => rw [List.rdrop_zero, Nat.add_zero]
  | succ n ih => rw [← dropLast_rdrop, ih, dropLast_rdrop, Nat.add_assoc]

/-- The end of a stretch takes a real step off again, and what else has been lost stays so. -/
theorem dropLast_rdrop_extend {path : Path} {segment : Segment} (h : segment ≠ .nowhere) (n : Nat) :
    List.dropLast ((path.extend segment).rdrop n) = path.rdrop n := by
  rw [dropLast_rdrop, extend_eq_append h, List.rdrop_concat_succ]

theorem rdrop_eq_self_iff {path : Path} {n : Nat} : path.rdrop n = path ↔ n = 0 ∨ path = [] := by
  rw [List.rdrop, List.take_eq_self_iff, ← List.length_eq_zero_iff]
  omega

end Path

-- The path and what is kept so far are arbitrary, so that the statements pass from one step to the
-- next: a later step begins where the losses of the earlier ones have led.
mutual

/-- A walk loses a step of the path for each stretch that begins by a step that goes nowhere, and
its visitor meets what the tour says. -/
theorem Outline.walk_eq (tree : Outline α) (v : Visitor α σ) (segment : Segment) (w : Walk σ) :
    tree.walk v segment w =
      ⟨w.path.rdrop tree.losses, (tree.tour (w.path.extend segment)).foldl v.meet w.kept⟩ := by
  match tree with
  | .node content steps =>
    rw [Outline.walk, OutlineStep.walkAll_eq steps, Outline.losses, Outline.tour]
    simp only [Walk.enter, Walk.push, Walk.leave, Walk.pop, List.cons_append, List.foldl_cons,
      List.foldl_append, List.foldl_nil, Visitor.meet]
    by_cases hsegment : segment = .nowhere
    · rw [if_pos hsegment, hsegment, Path.extend_nowhere]
    · rw [if_neg hsegment, Path.dropLast_rdrop_extend hsegment]

theorem OutlineStep.walk_eq (step : OutlineStep α) (v : Visitor α σ) (w : Walk σ) :
    step.walk v w = ⟨w.path.rdrop step.losses, (step.tour w.path).foldl v.meet w.kept⟩ := by
  match step with
  | .visit child segment =>
    rw [OutlineStep.walk, Outline.walk_eq child, OutlineStep.losses, OutlineStep.tour]
  | .within segment steps =>
    rw [OutlineStep.walk, OutlineStep.walkAll_eq steps, OutlineStep.losses, OutlineStep.tour]
    simp only [Walk.push, Walk.pop]
    by_cases hsegment : segment = .nowhere
    · rw [if_pos hsegment, hsegment, Path.extend_nowhere, Path.dropLast_rdrop]
    · rw [if_neg hsegment, Path.dropLast_rdrop_extend hsegment, Nat.add_zero]

theorem OutlineStep.walkAll_eq (steps : List (OutlineStep α)) (v : Visitor α σ) (w : Walk σ) :
    OutlineStep.walkAll v steps w =
      ⟨w.path.rdrop (OutlineStep.lossesAll steps),
        (OutlineStep.tourAll w.path steps).foldl v.meet w.kept⟩ := by
  match steps with
  | [] =>
    rw [OutlineStep.walkAll, OutlineStep.lossesAll, OutlineStep.tourAll, List.rdrop_zero,
      List.foldl_nil]
  | step :: rest =>
    rw [OutlineStep.walkAll, OutlineStep.walk_eq step, OutlineStep.walkAll_eq rest,
      OutlineStep.lossesAll, OutlineStep.tourAll, Path.rdrop_rdrop, List.foldl_append]

end

/-! ### Balance -/

mutual

theorem Outline.losses_eq_zero_iff (tree : Outline α) : tree.losses = 0 ↔ tree.Anchored := by
  match tree with
  | .node _ steps =>
    rw [Outline.losses, Outline.Anchored, OutlineStep.lossesAll_eq_zero_iff steps]

theorem OutlineStep.losses_eq_zero_iff (step : OutlineStep α) :
    step.losses = 0 ↔ step.Anchored := by
  match step with
  | .visit child _ =>
    rw [OutlineStep.losses, OutlineStep.Anchored, Outline.losses_eq_zero_iff child]
  | .within segment steps =>
    rw [OutlineStep.losses, OutlineStep.Anchored, Nat.add_eq_zero_iff,
      OutlineStep.lossesAll_eq_zero_iff steps, and_comm]
    simp

theorem OutlineStep.lossesAll_eq_zero_iff (steps : List (OutlineStep α)) :
    OutlineStep.lossesAll steps = 0 ↔ OutlineStep.AllAnchored steps := by
  match steps with
  | [] => simp [OutlineStep.lossesAll, OutlineStep.AllAnchored]
  | step :: rest =>
    rw [OutlineStep.lossesAll, OutlineStep.AllAnchored, Nat.add_eq_zero_iff,
      OutlineStep.losses_eq_zero_iff step, OutlineStep.lossesAll_eq_zero_iff rest]

end

mutual

/-- Where nothing is lost, every node is left with the path with which it has been entered. -/
theorem Outline.Anchored.rounds {tree : Outline α} (h : tree.Anchored) (path : Path) :
    tree.Rounds (tree.tour path) := by
  match tree, h with
  | .node content steps, h =>
    rw [Outline.Anchored] at h
    rw [Outline.tour, Outline.Rounds, (OutlineStep.lossesAll_eq_zero_iff steps).mpr h,
      List.rdrop_zero]
    exact ⟨path, _, rfl, OutlineStep.AllAnchored.rounds h path⟩

theorem OutlineStep.Anchored.rounds {step : OutlineStep α} (h : step.Anchored) (path : Path) :
    step.Rounds (step.tour path) := by
  match step, h with
  | .visit child segment, h =>
    rw [OutlineStep.Anchored] at h
    rw [OutlineStep.tour, OutlineStep.Rounds]
    exact Outline.Anchored.rounds h _
  | .within segment steps, h =>
    rw [OutlineStep.Anchored] at h
    rw [OutlineStep.tour, OutlineStep.Rounds]
    exact OutlineStep.AllAnchored.rounds h.2 _

theorem OutlineStep.AllAnchored.rounds {steps : List (OutlineStep α)}
    (h : OutlineStep.AllAnchored steps) (path : Path) :
    OutlineStep.RoundsAll steps (OutlineStep.tourAll path steps) := by
  match steps, h with
  | [], _ => rw [OutlineStep.tourAll, OutlineStep.RoundsAll]
  | step :: rest, h =>
    rw [OutlineStep.AllAnchored] at h
    obtain ⟨hstep, hrest⟩ := h
    rw [OutlineStep.tourAll, OutlineStep.RoundsAll]
    exact ⟨_, _, rfl, OutlineStep.Anchored.rounds hstep path,
      OutlineStep.AllAnchored.rounds hrest _⟩

end

namespace Outline

/-- If the root is left with the path with which it has been entered, nothing has been lost, or
there was nothing to lose. -/
theorem anchored_of_rounds {tree : Outline α} {path : Path} (h : tree.Rounds (tree.tour path))
    (hpath : path ≠ []) : tree.Anchored := by
  cases tree with
  | node content steps =>
    rw [tour, Rounds] at h
    obtain ⟨path', inner, heq, -⟩ := h
    obtain ⟨hentered, hrest⟩ := List.cons.inj heq
    have hleft := (List.append_inj' hrest rfl).2
    simp only [List.cons.injEq, Encounter.entered.injEq, Encounter.left.injEq, true_and,
      and_true] at hentered hleft
    rw [Anchored, ← OutlineStep.lossesAll_eq_zero_iff]
    exact (Path.rdrop_eq_self_iff.mp (hleft.trans hentered.symm)).resolve_right hpath

/-- The encounters of a balanced walk are those of the tour, for the diary tells them. -/
theorem balanced_iff_rounds (tree : Outline α) (segment : Segment) (path : Path) :
    tree.Balanced segment path ↔
      path.rdrop tree.losses = path ∧ tree.Rounds (tree.tour (path.extend segment)) := by
  constructor
  · rintro ⟨hrestores, encounters, hrounds, hkept⟩
    have hpath := hrestores Visitor.diary []
    have hdiary := hkept Visitor.diary []
    rw [walk_eq] at hpath hdiary
    rw [Visitor.foldl_meet_diary, Visitor.foldl_meet_diary] at hdiary
    exact ⟨hpath, (List.append_cancel_left hdiary).symm ▸ hrounds⟩
  · rintro ⟨hpath, hrounds⟩
    exact ⟨fun v kept => by rw [walk_eq]; exact hpath,
      _, hrounds, fun v kept => by rw [walk_eq]⟩

theorem Anchored.balanced {tree : Outline α} (h : tree.Anchored) (segment : Segment)
    (path : Path) : tree.Balanced segment path := by
  rw [balanced_iff_rounds, (losses_eq_zero_iff tree).mpr h, List.rdrop_zero]
  exact ⟨rfl, h.rounds _⟩

/-- Walks over a tree are balanced from every path if no stretch in it begins by a step that goes
nowhere, and only then. A walk that enters the root with some path is balanced only then, too; one
that begins with no path at all has no step to lose there and is balanced if it goes in rounds. -/
theorem balanced_iff (tree : Outline α) (segment : Segment) :
    ((∀ path, tree.Balanced segment path) ↔ tree.Anchored) ∧
      ∀ path, tree.Balanced segment path ↔
        tree.Anchored ∨ path.extend segment = [] ∧ tree.Rounds (tree.tour []) := by
  have hexact (path : Path) : tree.Balanced segment path ↔
      tree.Anchored ∨ path.extend segment = [] ∧ tree.Rounds (tree.tour []) := by
    refine ⟨fun h => ?_, ?_⟩
    · obtain ⟨-, hrounds⟩ := (balanced_iff_rounds tree segment path).mp h
      by_cases hpath : path.extend segment = []
      · exact .inr ⟨hpath, hpath ▸ hrounds⟩
      · exact .inl (anchored_of_rounds hrounds hpath)
    · rintro (h | ⟨hpath, hrounds⟩)
      · exact h.balanced segment path
      · rw [balanced_iff_rounds, hpath, Path.rdrop_eq_self_iff]
        refine ⟨.inr ?_, hrounds⟩
        by_contra hne
        rw [Path.extend] at hpath
        split_ifs at hpath <;> simp_all
  refine ⟨⟨fun h => ?_, fun h path => h.balanced segment path⟩, hexact⟩
  have hindex : Path.extend [.index 0] segment ≠ [] := by
    rw [Path.extend]
    split_ifs <;> simp
  exact ((hexact [.index 0]).mp (h _)).resolve_right fun hpath => hindex hpath.1

-- Behind a stretch that goes nowhere `g` below `f` is met at `g`, and `f` is left with no path.
example :
    (node "f" [.within .nowhere [], .visit (node "g" []) (.field "g")]).tour [.field "f"] =
      [.entered "f" [.field "f"], .entered "g" [.field "g"], .left "g" [.field "g"],
        .left "f" []] :=
  rfl

end Outline

end DatalogClient
