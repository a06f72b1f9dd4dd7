import DatalogClient.Schema.Catalog

/-!
# Listing a schema

Entries are listed under their namespaces, one a line, with what is known of each.

## Main definitions

* `listing` — the lines for some entries
* `SchemaStats.lines` — the lines for numbers of entries
-/

namespace DatalogClient

/-- What is known of an entry: type, cardinality, and what it is. -/
def SchemaEntry.tags (e : SchemaEntry) : List String :=
  e.valueType.toList ++ e.cardinality.toList ++ (if e.isUnique then ["unique"] else []) ++
    (if e.isComponent then ["component"] else []) ++ (if e.isFunction then ["fn"] else [])

/-- The entry in a line, unless its documentation has several. -/
def SchemaEntry.described (e : SchemaEntry) : String :=
  e.ident ++
    (if e.tags.isEmpty then "" else " [" ++ ", ".intercalate e.tags ++ "]") ++
    (match e.doc with
      | some doc => "  " ++ doc
      | none => "")

/-- The lines for some entries. -/
def listing (entries : List SchemaEntry) : List String :=
  if entries.isEmpty then ["no matching attributes"]
  else
    (groupByNamespace entries).flatMap fun (name, group) =>
      name :: group.map fun e => "  " ++ e.described

/-- The lines for numbers of entries. -/
def SchemaStats.lines (s : SchemaStats) : List String :=
  ["attributes  " ++ toString s.attributes, "idents      " ++ toString s.idents,
   "functions   " ++ toString s.functions, "unique      " ++ toString s.unique,
   "components  " ++ toString s.components]

end DatalogClient
