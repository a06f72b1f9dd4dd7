import DatalogClient.Outline.Path

/-!
# Walks over trees

A walk enters and leaves every node of a tree and knows the path to the node where it is. What
happens at a node is up to a visitor.

A step that goes nowhere adds nothing to the path. The end of a stretch always takes the last step
from the path, also if the stretch began by a step that goes nowhere.

## Main definitions

* `Outline`, `OutlineStep` — trees, and how the children of a node are reached
* `Visitor`, `Walk` — what happens at nodes, and how far a walk has come
* `Outline.walk` — the walk over a tree
-/

namespace DatalogClient

mutual

/-- A tree whose nodes hold something. -/
inductive Outline (α : Type) where
  | node (content : α) (steps : List (OutlineStep α))

/-- How children are reached. -/
inductive OutlineStep (α : Type) where
  /-- A child, one step away. -/
  | visit (child : Outline α) (segment : Segment)
  /-- A stretch of steps below a segment. -/
  | within (segment : Segment) (steps : List (OutlineStep α))

end

variable {α σ : Type}

/-- Children in a field that holds a list. -/
def OutlineStep.indexed (field : String) (items : List (Outline α)) : OutlineStep α :=
  .within (.field field) (items.mapIdx fun i item => .visit item (.index i))

/-- What happens when a node is entered and left. -/
structure Visitor (α σ : Type) where
  enter : α → Path → σ → σ
  leave : α → Path → σ → σ

/-- How far a walk has come: the path to where it is, and what the visitor keeps. -/
structure Walk (σ : Type) where
  path : Path
  kept : σ

namespace Walk

/-- One step further. -/
def push (w : Walk σ) (segment : Segment) : Walk σ := { w with path := w.path.extend segment }

/-- One step back. -/
def pop (w : Walk σ) : Walk σ := { w with path := w.path.dropLast }

/-- Enter a node. -/
def enter (w : Walk σ) (v : Visitor α σ) (content : α) : Walk σ :=
  { w with kept := v.enter content w.path w.kept }

/-- Leave a node. -/
def leave (w : Walk σ) (v : Visitor α σ) (content : α) : Walk σ :=
  { w with kept := v.leave content w.path w.kept }

end Walk

mutual

/-- Walk over a tree that is reached by a segment. -/
def Outline.walk (v : Visitor α σ) : Outline α → Segment → Walk σ → Walk σ
  | .node content steps, segment, w =>
    let w := (OutlineStep.walkAll v steps ((w.push segment).enter v content)).leave v content
    if segment = .nowhere then w else w.pop

/-- Walk one step. -/
def OutlineStep.walk (v : Visitor α σ) : OutlineStep α → Walk σ → Walk σ
  | .visit child segment, w => child.walk v segment w
  | .within segment steps, w => (OutlineStep.walkAll v steps (w.push segment)).pop

/-- Walk several steps. -/
def OutlineStep.walkAll (v : Visitor α σ) : List (OutlineStep α) → Walk σ → Walk σ
  | [], w => w
  | step :: rest, w => OutlineStep.walkAll v rest (step.walk v w)

end

end DatalogClient
