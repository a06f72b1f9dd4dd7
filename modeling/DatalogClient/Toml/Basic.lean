/-!
# TOML tables

Settings are kept in TOML. They need texts, integers and tables only, and values of other sorts
are refused when read.

A table is set up in one of several ways, which decide whether more can be put into it later: a
table written in braces is complete; one that a dotted key made takes further dotted keys; one
that the header of another table implied may have a header of its own.

## Main definitions

* `Toml`, `Toml.Table` — values and tables
* `Toml.put?` — a table with a value at a dotted key
* `Toml.openTable?`, `Toml.putUnder?` — a table with a header, and with a value under a header
-/

namespace DatalogClient

/-- How a table was set up. -/
inductive Toml.Origin where
  | braces
  | dotted
  | implied
  | header
deriving DecidableEq

/-- A TOML value. -/
inductive Toml where
  | text (value : String)
  | int (value : Int)
  | table (origin : Toml.Origin) (entries : List (String × Toml))

namespace Toml

/-- The entries of a table, in the order in which they were set up. -/
abbrev Table := List (String × Toml)

/-- The value of a name. -/
def find? (name : String) (entries : Table) : Option Toml :=
  (entries.find? fun entry => entry.1 = name).map (·.2)

/-- Replace the value of a name, or add it at the end. -/
def set (name : String) (value : Toml) : Table → Table
  | [] => [(name, value)]
  | (n, v) :: rest => if n = name then (n, value) :: rest else (n, v) :: set name value rest

/-- Put a value at a dotted key. Nothing is written over. -/
def put? : List String → Toml → Table → Option Table
  | [], _, _ => none
  | [name], value, entries =>
    match find? name entries with
    | none => some (set name value entries)
    | some _ => none
  | name :: names, value, entries =>
    match find? name entries with
    | none => (put? names value []).map fun inner => set name (.table .dotted inner) entries
    | some (.table .dotted inner) =>
      (put? names value inner).map fun inner => set name (.table .dotted inner) entries
    | some _ => none

/-- Give a table a header of its own. -/
def openTable? : List String → Table → Option Table
  | [], _ => none
  | [name], entries =>
    match find? name entries with
    | none => some (set name (.table .header []) entries)
    | some (.table .implied inner) => some (set name (.table .header inner) entries)
    | some _ => none
  | name :: names, entries =>
    match find? name entries with
    | none => (openTable? names []).map fun inner => set name (.table .implied inner) entries
    | some (.table .braces _) => none
    | some (.table origin inner) =>
      (openTable? names inner).map fun inner => set name (.table origin inner) entries
    | some _ => none

/-- Put a value at a dotted key under a header. -/
def putUnder? : List String → List String → Toml → Table → Option Table
  | [], key, value, entries => put? key value entries
  | name :: names, key, value, entries =>
    match find? name entries with
    | some (.table origin inner) =>
      (putUnder? names key value inner).map fun inner => set name (.table origin inner) entries
    | _ => none

end Toml

end DatalogClient
