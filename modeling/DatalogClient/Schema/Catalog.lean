import DatalogClient.Schema.Basic
import DatalogClient.Text.Blank
import DatalogClient.Text.Lowercase

/-!
# Looking through a catalog

A catalog is the list of all entries of a schema. A filter selects entries by what they are and by
a text that occurs in them, upper and lower case alike.

## Main definitions

* `SchemaFilter`, `SchemaFilter.apply` — the entries that are wanted
* `groupByNamespace` — entries under their namespaces
* `SchemaStats` — how many entries there are of each sort
-/

namespace DatalogClient

/-- Which entries are wanted. With no sort shown there are none. -/
structure SchemaFilter where
  showIdent : Bool := true
  showFunction : Bool := true
  showAttribute : Bool := true
  onlyUnique : Bool := false
  onlyComponents : Bool := false
  search : Option String := none

/-- The first text occurs in the second. -/
def occursIn (part : List Char) : List Char → Bool
  | [] => part.isEmpty
  | c :: rest => part.isPrefixOf (c :: rest) || occursIn part rest

namespace SchemaFilter

/-- The filter that looks for a text. A blank text is none. -/
def withSearch (f : SchemaFilter) (term : String) : SchemaFilter :=
  { f with search := if Text.trim term = "" then none else some term }

/-- The text occurs in the namespace, the documentation or the ident of an entry, cases and
surrounding blanks aside. -/
def finds (term : String) (e : SchemaEntry) : Bool :=
  let needle := (Text.lowercase (Text.trim term)).toList
  let hit (field : String) : Bool := occursIn needle (Text.lowercase field).toList
  hit e.nameSpace || e.doc.any hit || hit e.ident

/-- The entry is of a sort that is shown. -/
def shows (f : SchemaFilter) (e : SchemaEntry) : Bool :=
  f.showIdent && e.isIdent || f.showFunction && e.isFunction || f.showAttribute && e.isAttribute

/-- The entry is wanted. -/
def admits (f : SchemaFilter) (e : SchemaEntry) : Bool :=
  f.shows e && (!f.onlyUnique || e.isUnique) && (!f.onlyComponents || e.isComponent) &&
    f.search.all fun term => finds term e

/-- The entries that are wanted, in the order of the catalog. -/
def apply (f : SchemaFilter) (catalog : List SchemaEntry) : List SchemaEntry :=
  catalog.filter f.admits

end SchemaFilter

/-- The namespaces of a catalog, each once, in order. -/
def namespacesOf (catalog : List SchemaEntry) : List String :=
  (catalog.map SchemaEntry.nameSpace).eraseDups.mergeSort fun a b => decide (a ≤ b)

/-- The entries of each namespace, in the order of the catalog. -/
def groupByNamespace (catalog : List SchemaEntry) : List (String × List SchemaEntry) :=
  (namespacesOf catalog).map fun name => (name, catalog.filter fun e => e.nameSpace = name)

/-- How many entries there are of each sort. -/
structure SchemaStats where
  idents : Nat
  functions : Nat
  attributes : Nat
  components : Nat
  unique : Nat
deriving DecidableEq

/-- The numbers of a catalog. -/
def SchemaStats.ofCatalog (catalog : List SchemaEntry) : SchemaStats where
  idents := catalog.countP SchemaEntry.isIdent
  functions := catalog.countP SchemaEntry.isFunction
  attributes := catalog.countP SchemaEntry.isAttribute
  components := catalog.countP SchemaEntry.isComponent
  unique := catalog.countP SchemaEntry.isUnique

end DatalogClient
