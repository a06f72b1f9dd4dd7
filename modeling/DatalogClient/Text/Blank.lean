import DatalogClient.Text.Ranges

/-!
# White space

The twenty-five characters of the property White_Space, and the two ways in which text is freed
of them.

## Main definitions

* `isBlank` — the character is white space
* `trim` — text without the white space at its ends
* `splitAtBlank` — text up to its first white space, and what follows that character
-/

namespace DatalogClient.Text

/-- Closed ranges of the property White_Space. -/
def blankRanges : List (Nat × Nat) :=
  [(0x09, 0x0D), (0x20, 0x20), (0x85, 0x85), (0xA0, 0xA0), (0x1680, 0x1680), (0x2000, 0x200A),
   (0x2028, 0x2029), (0x202F, 0x202F), (0x205F, 0x205F), (0x3000, 0x3000)]

/-- The character is white space. -/
def isBlank (c : Char) : Bool := inRanges blankRanges c.toNat

/-- The characters from the first that is not white space on. -/
def trimStart (s : List Char) : List Char := s.dropWhile isBlank

/-- The characters up to the last that is not white space. -/
def trimEnd (s : List Char) : List Char := (s.reverse.dropWhile isBlank).reverse

/-- Text without the white space at its two ends. -/
def trim (s : String) : String := String.ofList (trimEnd (trimStart s.toList))

/-- Text up to its first white space, and what follows that one character; a text without white
space stands whole, with nothing after it. -/
def splitAtBlank (s : String) : String × String :=
  let head := s.toList.takeWhile fun c => !isBlank c
  (String.ofList head, String.ofList (s.toList.drop (head.length + 1)))

end DatalogClient.Text
