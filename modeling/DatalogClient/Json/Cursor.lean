import DatalogClient.Json.Problem

/-!
# A point of a text being read

A `Cursor` holds what is left of a text and the place where that begins. Columns count bytes, so a
reader that steps one byte into a longer character stands on that character still.

## Main definitions

* `Cursor`, `Cursor.next`, `Cursor.byteOn`, `Cursor.skipBlank` — the cursor and its steps
* `Stop`, `Scan` — a fault with the point where reading ceased, and a reader's result
-/

namespace DatalogClient

/-- The place after a character. -/
def Place.after (p : Place) (c : Char) : Place :=
  if c = '\n' then ⟨p.line + 1, 0⟩ else ⟨p.line, p.column + c.utf8Size⟩

/-- What is left of a text, and the place where it begins. -/
structure Cursor where
  rest : List Char
  place : Place

namespace Cursor

/-- The beginning of a text. -/
def ofText (text : String) : Cursor := ⟨text.toList, ⟨1, 0⟩⟩

/-- The point after the next character. -/
def next (c : Cursor) : Cursor :=
  match c.rest with
  | ch :: rest => ⟨rest, c.place.after ch⟩
  | [] => c

/-- The point one byte further. A character of several bytes is not yet left. -/
def byteOn (c : Cursor) : Cursor :=
  match c.rest with
  | ch :: _ => if ch.utf8Size = 1 then c.next else ⟨c.rest, ⟨c.place.line, c.place.column + 1⟩⟩
  | [] => c

/-- The place one byte further. -/
def ahead (c : Cursor) : Place := c.byteOn.place

/-- The point the given number of bytes further. -/
def bytesOn : Nat → List Char → Place → Cursor
  | n, ch :: rest, p =>
    if ch.utf8Size ≤ n then bytesOn (n - ch.utf8Size) rest (p.after ch)
    else ⟨ch :: rest, ⟨p.line, p.column + n⟩⟩
  | _, [], p => ⟨[], p⟩

/-- The end of the text. -/
def toEnd : List Char → Place → Cursor
  | ch :: rest, p => toEnd rest (p.after ch)
  | [], p => ⟨[], p⟩

/-- The four characters that JSON takes for white space. -/
def isJsonBlank (ch : Char) : Bool := ch = ' ' || ch = '\n' || ch = '\t' || ch = '\r'

/-- The first point of the rest that is not white space. -/
def skipBlankFrom : List Char → Place → Cursor
  | ch :: rest, p => if isJsonBlank ch then skipBlankFrom rest (p.after ch) else ⟨ch :: rest, p⟩
  | [], p => ⟨[], p⟩

/-- The next point that is not white space. -/
def skipBlank (c : Cursor) : Cursor := skipBlankFrom c.rest c.place

/-- The digits that come next, and the point after them. -/
def digits (c : Cursor) : List Char × Cursor :=
  let found := c.rest.takeWhile Char.isDigit
  (found, ⟨c.rest.dropWhile Char.isDigit, ⟨c.place.line, c.place.column + found.length⟩⟩)

end Cursor

/-- A fault, and the point where reading ceased. -/
structure Stop where
  fault : Fault
  cursor : Cursor

/-- What a reader finds and where it ends, or why it ceased. -/
abbrev Scan (α : Type) := Except Stop (α × Cursor)

namespace Cursor

/-- Cease here, for a fault at this place. -/
def stop (c : Cursor) (flaw : Flaw) : Stop := ⟨⟨flaw, c.place⟩, c⟩

/-- Cease here, for a fault in the next byte. -/
def stopAhead (c : Cursor) (flaw : Flaw) : Stop := ⟨⟨flaw, c.ahead⟩, c⟩

/-- Take the next byte and cease for it. -/
def stopPast (c : Cursor) (flaw : Flaw) : Stop := c.byteOn.stop flaw

end Cursor

end DatalogClient
