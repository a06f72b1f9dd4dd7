import DatalogClient.Text.Hex

/-!
# TOML texts and integers

Readers for texts in their four forms, and for integers to the bases ten, sixteen, eight and two.
Each takes what it reads from the front of the text and leaves the rest.

## Main definitions

* `Step` — a reader
* `basicText`, `literalText`, `block`, `anyText` — texts in their four forms
* `integer` — integers
-/

namespace DatalogClient.Toml

/-- Something read, and what is left of the text. -/
abbrev Step (α : Type) := List Char → Option (α × List Char)

/-- Space and tab. -/
def isBlank (c : Char) : Bool := c = ' ' || c = '\t'

/-- A text without the blanks at its beginning. -/
def skipBlanks (s : List Char) : List Char := s.dropWhile isBlank

/-- A line break. -/
def lineBreak : Step Unit
  | '\n' :: s => some ((), s)
  | '\r' :: '\n' :: s => some ((), s)
  | _ => none

/-- A character that stands for itself within a line. -/
def isPlain (c : Char) : Bool := c = '\t' || (0x20 ≤ c.toNat && c.toNat ≠ 0x7F)

/-! ### Texts -/

/-- The character of a number that was written with so many hexadecimal digits. -/
def numbered (count : Nat) : Step Char := fun s =>
  let digits := s.take count
  if digits.length < count then none
  else
    match Text.hexNumber? digits with
    | some n => if n.isValidChar then some (Char.ofNat n, s.drop count) else none
    | none => none

/-- The character of an escape, after its backslash. -/
def escape : Step Char
  | 'b' :: s => some ('\x08', s)
  | 't' :: s => some ('\t', s)
  | 'n' :: s => some ('\n', s)
  | 'f' :: s => some ('\x0c', s)
  | 'r' :: s => some ('\r', s)
  | 'e' :: s => some ('\x1b', s)
  | '"' :: s => some ('"', s)
  | '\\' :: s => some ('\\', s)
  | 'x' :: s => numbered 2 s
  | 'u' :: s => numbered 4 s
  | 'U' :: s => numbered 8 s
  | _ => none

/-- Put a character before what is read next. -/
def before (c : Char) (r : Option (List Char × List Char)) : Option (List Char × List Char) :=
  r.map fun (read, rest) => (c :: read, rest)

/-- A text on one line with escapes, after its quote. The first argument bounds its length. -/
def basicFrom : Nat → Step (List Char)
  | 0, _ => none
  | fuel + 1, s =>
    match s with
    | [] => none
    | '"' :: rest => some ([], rest)
    | '\\' :: rest =>
      match escape rest with
      | none => none
      | some (c, rest) => before c (basicFrom fuel rest)
    | c :: rest => if isPlain c then before c (basicFrom fuel rest) else none

/-- A text on one line with escapes, after its quote. -/
def basicText : Step (List Char) := fun s => basicFrom (s.length + 1) s

/-- A text on one line without escapes, after its quote. -/
def literalText : Step (List Char)
  | [] => none
  | c :: rest =>
    if c = '\'' then some ([], rest)
    else if isPlain c then before c (literalText rest)
    else none

/-- The quotes at the end of a block: three end it, up to two more before them belong to it. -/
def blockEnd (quote : Char) (s : List Char) : Option (List Char × List Char) :=
  let count := (s.takeWhile (· = quote)).length
  if 3 ≤ count ∧ count ≤ 5 then some (List.replicate (count - 3) quote, s.drop count) else none

/-- Blanks to the end of the line and white space beyond it, as a backslash takes them out. -/
def skipLines (s : List Char) : Option (List Char) :=
  match lineBreak (skipBlanks s) with
  | none => none
  | some ((), rest) => some (rest.dropWhile fun c => isBlank c || c = '\n' || c = '\r')

/-- A character of a block that stands for itself. -/
def blockChar : Step Char
  | '\r' :: '\n' :: rest => some ('\r', '\n' :: rest)
  | '\n' :: rest => some ('\n', rest)
  | c :: rest => if isPlain c then some (c, rest) else none
  | [] => none

/-- A text of several lines. The first argument bounds its length, the second says which quotes
end it; only with double quotes there are escapes. -/
def blockFrom : Nat → Char → Step (List Char)
  | 0, _, _ => none
  | fuel + 1, quote, s =>
    match blockEnd quote s with
    | some found => some found
    | none =>
      match s with
      | '\\' :: rest =>
        if quote = '"' then
          match skipLines rest with
          | some rest => blockFrom fuel quote rest
          | none =>
            match escape rest with
            | none => none
            | some (c, rest) => before c (blockFrom fuel quote rest)
        else before '\\' (blockFrom fuel quote rest)
      | _ =>
        match blockChar s with
        | none => none
        | some (c, rest) => before c (blockFrom fuel quote rest)

/-- A text of several lines, after its three quotes. A line break at its beginning is left out. -/
def block (quote : Char) : Step (List Char) := fun s =>
  let s := match lineBreak s with
    | some ((), rest) => rest
    | none => s
  blockFrom (s.length + 1) quote s

/-- A text in any form. -/
def anyText : Step String := fun s =>
  let found := match s with
    | '"' :: '"' :: '"' :: rest => block '"' rest
    | '\'' :: '\'' :: '\'' :: rest => block '\'' rest
    | '"' :: rest => basicText rest
    | '\'' :: rest => literalText rest
    | _ => none
  found.map fun (chars, rest) => (String.ofList chars, rest)

/-! ### Integers -/

/-- The value of digits, between which single underscores may stand. -/
def digitsValue? (base : Nat) (digits : List Char) : Option Nat :=
  let rec go (afterDigit : Bool) (n : Nat) : List Char → Option Nat
    | [] => if afterDigit then some n else none
    | c :: rest =>
      if c = '_' then if afterDigit then
          match rest with
          | [] => none
          | _ => go false n rest
        else none
      else
        match Text.hexValue? c with
        | some d => if d < base then go true (base * n + d) rest else none
        | none => none
  go false 0 digits

/-- The value of a decimal, which has no leading zeros. -/
def decimalValue? : List Char → Option Nat
  | '0' :: _ :: _ => none
  | digits => digitsValue? 10 digits

/-- The integer that a word is. -/
def integer? : List Char → Option Int
  | '0' :: 'x' :: digits => (digitsValue? 16 digits).map Int.ofNat
  | '0' :: 'o' :: digits => (digitsValue? 8 digits).map Int.ofNat
  | '0' :: 'b' :: digits => (digitsValue? 2 digits).map Int.ofNat
  | '+' :: digits => (decimalValue? digits).map Int.ofNat
  | '-' :: digits => (decimalValue? digits).map fun n => -(n : Int)
  | digits => (decimalValue? digits).map Int.ofNat

/-- A character that ends a word. -/
def endsWord (c : Char) : Bool :=
  isBlank c || c = '\n' || c = '\r' || c = ',' || c = '#' || c = '\x7d' || c = ']' || c = '='

/-- An integer. -/
def integer : Step Int := fun s =>
  (integer? (s.takeWhile fun c => !endsWord c)).map fun n =>
    (n, s.dropWhile fun c => !endsWord c)

end DatalogClient.Toml
