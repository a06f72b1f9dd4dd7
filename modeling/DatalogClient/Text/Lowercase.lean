import DatalogClient.Text.LetterCase

/-!
# Text in lower case

Every character goes to its own lower-case form, with two exceptions: the capital I with a dot
becomes two characters, and a capital sigma that ends a word becomes the final sigma.

## Main definitions

* `endsWord` — a sigma between these two texts ends a word
* `lowercase` — a whole text in lower case
-/

namespace DatalogClient.Text

/-- The first character that is not passed over is a letter with a case. -/
def meetsCasedLetter (s : List Char) : Bool :=
  match s.dropWhile isCaseIgnorable with
  | c :: _ => isCasedLetter c
  | [] => false

/-- A sigma ends a word when a cased letter comes before it (`before` is read backwards) and none
comes after it. -/
def endsWord (before after : List Char) : Bool :=
  meetsCasedLetter before && !meetsCasedLetter after

/-- The lower-case form of one character between the text before it (read backwards) and the text
after it. -/
def lowerAt (before : List Char) (c : Char) (after : List Char) : List Char :=
  if c = 'Σ' then [if endsWord before after then 'ς' else 'σ']
  else if c = 'İ' then ['i', '\u0307']
  else [lowerOf c]

/-- Lower-case the rest of a text whose beginning is known, read backwards. -/
def lowercaseFrom (before : List Char) : List Char → List Char
  | [] => []
  | c :: after => lowerAt before c after ++ lowercaseFrom (c :: before) after

/-- A whole text in lower case. -/
def lowercase (s : String) : String := String.ofList (lowercaseFrom [] s.toList)

end DatalogClient.Text
