import DatalogClient.Toml.Basic
import DatalogClient.Toml.Scalar

/-!
# TOML from text

A document consists of lines: entries, headers, comments. An entry belongs to the last header
before it. A byte order mark may stand at the beginning.

## Main definitions

* `Toml.ofText?` — the table of a text
-/

namespace DatalogClient.Toml

/-! ### Keys -/

/-- A character of a key without quotes. -/
def isKeyChar (c : Char) : Bool := c.isAlphanum || c = '_' || c = '-'

/-- A key without dots. -/
def simpleKey : Step String
  | '"' :: rest => (basicText rest).map fun (chars, rest) => (String.ofList chars, rest)
  | '\'' :: rest => (literalText rest).map fun (chars, rest) => (String.ofList chars, rest)
  | s =>
    let name := s.takeWhile isKeyChar
    if name.isEmpty then none else some (String.ofList name, s.dropWhile isKeyChar)

/-- A dotted key, of which so many parts there may be. -/
def keyFrom : Nat → Step (List String)
  | 0, _ => none
  | fuel + 1, s =>
    match simpleKey (skipBlanks s) with
    | none => none
    | some (name, rest) =>
      match skipBlanks rest with
      | '.' :: rest => (keyFrom fuel rest).map fun (names, rest) => (name :: names, rest)
      | rest => some ([name], rest)

/-- A dotted key. -/
def key : Step (List String) := fun s => keyFrom (s.length + 1) s

/-! ### Values -/

/-- A comment up to the end of its line, if one stands here. -/
def skipComment (s : List Char) : List Char :=
  match s with
  | '#' :: rest => rest.dropWhile isPlain
  | _ => s

/-- White space, line breaks and comments, of which so many there may be. -/
def skipSpace : Nat → List Char → List Char
  | 0, s => s
  | fuel + 1, s =>
    let s := skipComment (skipBlanks s)
    match lineBreak s with
    | some ((), rest) => skipSpace fuel rest
    | none => s

mutual

/-- A value. The first argument bounds the number of steps. -/
def value : Nat → Step Toml
  | 0, _ => none
  | fuel + 1, s =>
    match s with
    | '"' :: _ => (anyText s).map fun (t, rest) => (.text t, rest)
    | '\'' :: _ => (anyText s).map fun (t, rest) => (.text t, rest)
    | '\x7b' :: rest =>
      match skipSpace rest.length rest with
      | '\x7d' :: rest => some (.table .braces [], rest)
      | rest => (entries fuel [] rest).map fun (found, rest) => (.table .braces found, rest)
    | _ => (integer s).map fun (n, rest) => (.int n, rest)

/-- The entries of a table in braces, after those that were read. A comma may stand behind the
last one. -/
def entries : Nat → Table → Step Table
  | 0, _, _ => none
  | fuel + 1, before, s =>
    match key s with
    | some (names, '=' :: rest) =>
      match value fuel (skipBlanks rest) with
      | none => none
      | some (v, rest) =>
        match put? names v before with
        | none => none
        | some found =>
          match skipSpace rest.length rest with
          | '\x7d' :: rest => some (found, rest)
          | ',' :: rest =>
            match skipSpace rest.length rest with
            | '\x7d' :: rest => some (found, rest)
            | rest => entries fuel found rest
          | _ => none
    | _ => none

end

/-! ### Documents -/

/-- What has been read of a document: the header in force, and the table. -/
structure Draft where
  header : List String
  table : Table

/-- An entry or a header. -/
def item (draft : Draft) (s : List Char) : Option (Draft × List Char) :=
  match s with
  | '[' :: rest =>
    match key rest with
    | some (names, ']' :: rest) =>
      (openTable? names draft.table).map fun table => (⟨names, table⟩, rest)
    | _ => none
  | _ =>
    match key s with
    | some (names, '=' :: rest) =>
      match value (rest.length + 1) (skipBlanks rest) with
      | none => none
      | some (v, rest) =>
        (putUnder? draft.header names v draft.table).map fun table =>
          ({ draft with table }, rest)
    | _ => none

/-- The lines of a document, of which so many there may be. -/
def lines : Nat → Draft → List Char → Option Table
  | 0, _, _ => none
  | fuel + 1, draft, s =>
    let next (draft : Draft) (s : List Char) : Option Table :=
      match skipComment (skipBlanks s) with
      | [] => some draft.table
      | rest =>
        match lineBreak rest with
        | some ((), rest) => lines fuel draft rest
        | none => none
    match skipBlanks s with
    | [] => some draft.table
    | c :: rest =>
      if c = '#' || c = '\n' || c = '\r' then next draft (c :: rest)
      else
        match item draft (c :: rest) with
        | none => none
        | some (draft, rest) => next draft rest

/-- A text without a byte order mark at its beginning. -/
def dropMark : List Char → List Char
  | '\ufeff' :: rest => rest
  | s => s

/-- The table of a text. -/
def ofText? (text : String) : Option Table :=
  let s := dropMark text.toList
  lines (s.length + 1) ⟨[], []⟩ s

end DatalogClient.Toml
