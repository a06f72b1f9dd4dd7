/-!
# Paths into trees

A path names a node of a tree by the fields, keys and indices that lead to it. As text, names are
separated by points and indices stand in brackets.

## Main definitions

* `Segment`, `Path` — one step, and all steps from the root
* `Path.text` — a path as text
-/

namespace DatalogClient

/-- One step of a path. -/
inductive Segment where
  /-- No step at all. -/
  | nowhere
  | field (name : String)
  | key (name : String)
  | index (n : Nat)
deriving DecidableEq

/-- The steps from the root to a node. -/
abbrev Path := List Segment

namespace Path

/-- The path one step further. -/
def extend (path : Path) (segment : Segment) : Path :=
  if segment = .nowhere then path else path ++ [segment]

/-- The text of the rest of a path. Only the first name has no point before it. -/
def textFrom (first : Bool) : Path → String
  | [] => ""
  | .nowhere :: rest => textFrom first rest
  | .field name :: rest => (if first then "" else ".") ++ name ++ textFrom false rest
  | .key name :: rest => (if first then "" else ".") ++ name ++ textFrom false rest
  | .index n :: rest => "[" ++ toString n ++ "]" ++ textFrom false rest

/-- The text of a path. -/
def text (path : Path) : String := textFrom true path

end Path

end DatalogClient
