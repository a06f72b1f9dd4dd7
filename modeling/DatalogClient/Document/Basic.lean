import DatalogClient.Document.Clause
import DatalogClient.Pull.Basic

/-!
# Query documents

A query document says what is to be found, under which names, from which inputs, under which
constraints, and with which arguments. Only what is to be found must be there.

## Main definitions

* `FindTerm` — one thing to be found
* `Document` — the query document
* `Document.isPull` — the document asks for a pull and nothing else
-/

namespace DatalogClient

/-- One thing to be found. -/
inductive FindTerm where
  /-- A variable, or any other expression. -/
  | var (text : String)
  | pull (pull : Pull)
  /-- One result only. -/
  | single
  /-- A list of results. -/
  | many

namespace FindTerm

/-- The mark for one result. -/
def singleMark : String := "."

/-- The mark for a list of results. -/
def manyMark : String := "..."

/-- The term of a text. -/
def ofText (text : String) : FindTerm :=
  if text = singleMark then .single else if text = manyMark then .many else .var text

/-- Equality of terms. -/
def same : FindTerm → FindTerm → Bool
  | var a, var b => a == b
  | pull a, pull b => a.same b
  | single, single => true
  | many, many => true
  | _, _ => false

end FindTerm

/-- A query. -/
structure Document where
  find : List FindTerm
  /-- Names of the columns. -/
  keys : Option (List String) := none
  /-- How arguments are bound. -/
  inputs : Option (List Binding) := none
  clauses : Option (List Clause) := none
  args : Option (List Value) := none

/-- Equality of lists by an equality of items. -/
def sameLists {α : Type} (same : α → α → Bool) : List α → List α → Bool
  | [], [] => true
  | a :: as, b :: bs => same a b && sameLists same as bs
  | _, _ => false

/-- Equality of what may be absent. -/
def sameOptions {α : Type} (same : α → α → Bool) : Option α → Option α → Bool
  | none, none => true
  | some a, some b => same a b
  | _, _ => false

namespace Document

/-- Equality of documents. -/
def same (a b : Document) : Bool :=
  sameLists FindTerm.same a.find b.find && a.keys == b.keys && a.inputs == b.inputs &&
    sameOptions (sameLists Clause.same) a.clauses b.clauses && a.args == b.args

/-- What is found is a pull, one of it or many. -/
def isPull (d : Document) : Bool :=
  match d.find with
  | [.pull _, .single] => true
  | [.pull _, .many] => true
  | _ => false

/-- The same document with other arguments. -/
def withArgs (d : Document) (args : List Value) : Document := { d with args := some args }

end Document

end DatalogClient
