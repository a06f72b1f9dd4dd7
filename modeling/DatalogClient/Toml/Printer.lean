import DatalogClient.Toml.Scalar

/-!
# TOML as text

A text is written in the plainest form that shows it without escapes: in double quotes, in single
quotes, and over several lines in three of either. Where escapes cannot be avoided there are
double quotes.

## Main definitions

* `Toml.writeKey`, `Toml.writeText` — keys and texts
-/

namespace DatalogClient.Toml

/-- A control character that only an escape can show. -/
def needsEscape (c : Char) : Bool := !isPlain c && c != '\n'

/-- The greatest number of equal characters that stand next to each other. -/
def longestRun (c : Char) (s : List Char) : Nat :=
  (s.foldl (fun (run : Nat × Nat) d =>
    let now := if d = c then run.1 + 1 else 0
    (now, max run.2 now)) (0, 0)).2

/-- Four digits at least, to the base sixteen, in upper case. -/
def upperHex (n : Nat) : List Char :=
  let digits := (Text.hexNumber n).map Char.toUpper
  List.replicate (4 - digits.length) '0' ++ digits

/-- One character between double quotes. -/
def escaped (inBlock : Bool) (c : Char) : List Char :=
  if c = '\x08' then ['\\', 'b']
  else if c = '\t' then ['\\', 't']
  else if c = '\n' then if inBlock then ['\n'] else ['\\', 'n']
  else if c = '\x0c' then ['\\', 'f']
  else if c = '\r' then ['\\', 'r']
  else if c = '\\' then ['\\', '\\']
  else if needsEscape c then '\\' :: 'u' :: upperHex c.toNat
  else [c]

/-- Characters between double quotes. Of quotes in a row, of which `run` stand before, only `free`
stand for themselves. -/
def escapedFrom (inBlock : Bool) (free run : Nat) : List Char → List Char
  | [] => []
  | c :: rest =>
    if c = '"' then
      if run < free then '"' :: escapedFrom inBlock free (run + 1) rest
      else '\\' :: '"' :: escapedFrom inBlock free 0 rest
    else escaped inBlock c ++ escapedFrom inBlock free 0 rest

/-- A text in double quotes. -/
def writeBasic (s : List Char) : List Char := '"' :: (escapedFrom false 0 0 s ++ ['"'])

/-- A text in single quotes. -/
def writeLiteral (s : List Char) : List Char := '\'' :: (s ++ ['\''])

/-- A text between threefold quotes. A line break is put before a text that has some. -/
def writeBlock (quote : Char) (content s : List Char) : List Char :=
  let quotes := List.replicate 3 quote
  quotes ++ (if s.contains '\n' then ['\n'] else []) ++ content ++ quotes

/-- A text in three double quotes. -/
def writeBasicBlock (s : List Char) : List Char := writeBlock '"' (escapedFrom true 2 0 s) s

/-- A text. -/
def writeText (text : String) : List Char :=
  let s := text.toList
  let controls := s.any needsEscape
  let backslash := s.contains '\\'
  let multiline := s.contains '\n'
  let single := longestRun '\'' s
  let double := longestRun '"' s
  if !controls && !backslash && double = 0 && !multiline then writeBasic s
  else if !controls && single = 0 && !multiline then writeLiteral s
  else if !controls && !backslash && double ≤ 2 then writeBasicBlock s
  else if !controls && single ≤ 2 then writeBlock '\'' s s
  else if multiline then writeBasicBlock s
  else writeBasic s

/-- A key. Quotes are used only where they are needed. -/
def writeKey (text : String) : List Char :=
  let s := text.toList
  let controls := s.any fun c => !isPlain c
  if !s.isEmpty && s.all (fun c => c.isAlphanum || c = '_' || c = '-') then s
  else if !controls && !s.contains '\\' && !s.contains '"' then writeBasic s
  else if !controls && !s.contains '\'' then writeLiteral s
  else writeBasic s

end DatalogClient.Toml
