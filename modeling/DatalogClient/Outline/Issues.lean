import DatalogClient.Outline.Walk

/-!
# Issues found in trees

An issue is a message about the node of a path. Issues are told in the order of their paths, as
texts, and those of one path in the order in which they were found.

## Main definitions

* `Remark`, `Issue` — a message about a node, seen from the node and from the root
* `Visitor.remarks`, `Visitor.withLeaves` — visitors that collect issues
* `Issue.pairs`, `Issue.display` — issues in order, and as text
-/

namespace DatalogClient

/-- A message about a node or about what lies one step away from it. -/
structure Remark where
  segment : Segment := .nowhere
  message : String

/-- A message about the node of a path. -/
structure Issue where
  path : Path
  message : String
deriving DecidableEq

/-- The issue that a remark is at the node of a path. -/
def Remark.issue (path : Path) (r : Remark) : Issue := ⟨path.extend r.segment, r.message⟩

/-- The visitor that collects the remarks that nodes hold, on entering them. -/
def Visitor.remarks : Visitor (List Remark) (List Issue) where
  enter remarks path found := found ++ remarks.map (Remark.issue path)
  leave _ _ found := found

/-- The visitor that besides tells on leaving a node that none was entered below it. It keeps
whether a node has been entered since one was left. -/
def Visitor.withLeaves (v : Visitor (List Remark) (List Issue)) :
    Visitor (List Remark) (List Issue × Bool) where
  enter remarks path kept := (v.enter remarks path kept.1, true)
  leave remarks path kept :=
    let found := v.leave remarks path kept.1
    (if kept.2 then found ++ [⟨path, "leaf"⟩] else found, false)

namespace Issue

/-- Paths and messages in order. -/
def pairs (issues : List Issue) : List (String × String) :=
  (issues.map fun i => (i.path.text, i.message)).mergeSort fun a b => decide (a.1 ≤ b.1)

/-- One issue as a line. -/
def line (pair : String × String) : String :=
  if pair.1 = "" then pair.2 else pair.1 ++ ": " ++ pair.2

/-- All issues, one a line. -/
def display (issues : List Issue) : String := "\n".intercalate ((pairs issues).map line)

/-- The messages at a path. -/
def messagesAt (path : String) (issues : List Issue) : List String :=
  (issues.filter fun i => i.path.text = path).map Issue.message

/-- The paths that have issues, in order. -/
def paths (issues : List Issue) : List String :=
  (pairs issues).foldr
    (fun pair rest => if rest.head? = some pair.1 then rest else pair.1 :: rest) []

end Issue

/-- The issues of the remarks that a tree holds. -/
def Outline.issues (tree : Outline (List Remark)) : List Issue :=
  (tree.walk Visitor.remarks .nowhere ⟨[], []⟩).kept

end DatalogClient
