import DatalogClient.Decimal.Nearest
import DatalogClient.Json.Cursor
import DatalogClient.Text.Hex

/-!
# Words, numbers and strings of JSON

Readers for what JSON builds values from. A number without fraction and exponent is an integer if
it lies between `-2 ^ 63` and `2 ^ 64 - 1` and is not a negative zero; every other number is a
64-bit floating-point number, and one that would be infinite is refused. Of its digits those count
that fit a word, from the first on.

A reader that only passes over a value is more lenient: it does not look at the size of numbers nor
at the pairing of surrogates.

## Main definitions

* `readWord`, `readNumber`, `readString` — the readers
* `skipNumber`, `skipString` — the readers that pass over
-/

namespace DatalogClient.Json

/-- The rest of a word, letter by letter. -/
def readWord : List Char → Cursor → Except Stop Cursor
  | [], c => .ok c
  | letter :: word, c =>
    match c.rest with
    | [] => .error (c.stop .valueEnds)
    | ch :: _ => if ch = letter then readWord word c.next else .error (c.stopPast .wordUnknown)

/-! ### Numbers -/

/-- A number with one more digit. -/
def withDigit (n : Nat) (digit : Char) : Nat := 10 * n + (digit.toNat - 48)

/-- The value of decimal digits. -/
def natOfDigits (digits : List Char) : Nat := digits.foldl withDigit 0

/-- A number with as many more digits as a word holds, and how many are left out. -/
def takeDigits : Nat → List Char → Nat × Nat
  | n, [] => (n, 0)
  | n, digit :: rest =>
    if withDigit n digit < UInt64.size then takeDigits (withDigit n digit) rest
    else (n, rest.length + 1)

/-- The floating-point number of a decimal whose text ends here. -/
def floatAt (negative : Bool) (significand : Nat) (exponent : Int) (c : Cursor) : Scan Number :=
  match Decimal.double? significand.toUInt64 exponent with
  | some x => .ok (.float (if negative then -x else x), c)
  | none => .error (c.stop .numberTooLarge)

/-- The number of a text without fraction and exponent that ends here; of its digits so many have
been left out. -/
def wholeAt (negative : Bool) (n leftOut : Nat) (c : Cursor) : Scan Number :=
  if leftOut ≠ 0 then floatAt negative n leftOut c
  else if negative then
    if n = 0 || 9223372036854775808 < n then floatAt true n 0 c else .ok (.int (-n), c)
  else .ok (.int n, c)

/-- The greatest exponent that is read. -/
def exponentLimit : Nat := 2147483647

/-- The first digit with which an exponent exceeds the limit, as the number of digits up to it. -/
def exponentOverflow? : Nat → Nat → List Char → Option Nat
  | _, _, [] => none
  | value, count, d :: rest =>
    let value := 10 * value + (d.toNat - 48)
    if exponentLimit < value then some (count + 1) else exponentOverflow? value (count + 1) rest

/-- The digits of an exponent, after its sign. They are added to an exponent that the number has
without them. -/
def readExponentDigits (negative : Bool) (significand : Nat) (exponent sign : Int) (c : Cursor) :
    Scan Number :=
  match c.rest with
  | [] => .error (c.stop .valueEnds)
  | ch :: _ =>
    if !ch.isDigit then .error (c.stopPast .numberMalformed)
    else
      let (digits, d) := c.digits
      match exponentOverflow? 0 0 digits with
      | none => floatAt negative significand (exponent + sign * natOfDigits digits) d
      | some count =>
        if significand = 0 || sign < 0 then floatAt negative 0 0 d
        else .error ((Cursor.bytesOn count c.rest c.place).stop .numberTooLarge)

/-- The exponent of a number, if it has one. -/
def readExponent (negative : Bool) (significand : Nat) (exponent : Int) (c : Cursor) :
    Scan Number :=
  match c.rest with
  | ch :: _ =>
    if ch = 'e' || ch = 'E' then
      match c.next.rest with
      | '+' :: _ => readExponentDigits negative significand exponent 1 c.next.next
      | '-' :: _ => readExponentDigits negative significand exponent (-1) c.next.next
      | _ => readExponentDigits negative significand exponent 1 c.next
    else floatAt negative significand exponent c
  | [] => floatAt negative significand exponent c

/-- What follows the whole part of a number, of which so many digits have been left out. -/
def readFraction (negative : Bool) (n leftOut : Nat) (c : Cursor) : Scan Number :=
  match c.rest with
  | '.' :: _ =>
    let (digits, d) := c.next.digits
    if digits.isEmpty then
      if d.rest.isEmpty then .error (d.stop .valueEnds)
      else .error (d.stopAhead .numberMalformed)
    else
      let (significand, further) := takeDigits n digits
      readExponent negative significand (leftOut + further - digits.length) d
  | ch :: _ =>
    if ch = 'e' || ch = 'E' then readExponent negative n leftOut c
    else wholeAt negative n leftOut c
  | [] => wholeAt negative n leftOut c

/-- A number after its sign. A zero stands alone before the point. -/
def readNumber (negative : Bool) (c : Cursor) : Scan Number :=
  match c.rest with
  | [] => .error (c.stop .valueEnds)
  | ch :: _ =>
    if ch = '0' then
      match c.next.rest with
      | d :: _ =>
        if d.isDigit then .error (c.next.stopAhead .numberMalformed)
        else readFraction negative 0 0 c.next
      | [] => readFraction negative 0 0 c.next
    else if ch.isDigit then
      let (digits, d) := c.digits
      let (n, leftOut) := takeDigits 0 digits
      readFraction negative n leftOut d
    else .error (c.stopPast .numberMalformed)

/-! ### Strings -/

/-- Four hexadecimal digits. They are looked for in the next four bytes. -/
def readUnit (c : Cursor) : Scan Nat :=
  match c.rest with
  | w :: x :: y :: z :: _ =>
    match Text.hexNumber? [w, x, y, z] with
    | some n => .ok (n, c.next.next.next.next)
    | none => .error ((Cursor.bytesOn 4 c.rest c.place).stop .escapeUnknown)
  | few =>
    if (String.ofList few).utf8ByteSize < 4 then
      .error ((Cursor.toEnd c.rest c.place).stop .stringEnds)
    else .error ((Cursor.bytesOn 4 c.rest c.place).stop .escapeUnknown)

/-- The second half of a surrogate pair whose first half is given. -/
def readLowSurrogate (high : Nat) (c : Cursor) : Scan Char :=
  match c.rest with
  | [] => .error (c.stop .stringEnds)
  | '\\' :: _ =>
    match c.next.rest with
    | [] => .error (c.next.stop .stringEnds)
    | 'u' :: _ =>
      match readUnit c.next.next with
      | .error e => .error e
      | .ok (low, d) =>
        if 0xDC00 ≤ low && low ≤ 0xDFFF then
          .ok (Char.ofNat ((high - 0xD800) * 0x400 + (low - 0xDC00) + 0x10000), d)
        else .error (d.stop .surrogateAlone)
    | _ => .error (c.next.stopPast .surrogateUnpaired)
  | _ => .error (c.stopPast .surrogateUnpaired)

/-- The letter of an escape and the character that it stands for. -/
def escapeLetter? (c : Char) : Option Char :=
  if c = '"' then some '"'
  else if c = '\\' then some '\\'
  else if c = '/' then some '/'
  else if c = 'b' then some '\x08'
  else if c = 'f' then some '\x0c'
  else if c = 'n' then some '\n'
  else if c = 'r' then some '\r'
  else if c = 't' then some '\t'
  else none

/-- An escape after its backslash. -/
def readEscape (c : Cursor) : Scan Char :=
  match c.rest with
  | [] => .error (c.stop .stringEnds)
  | ch :: _ =>
    if ch = 'u' then
      match readUnit c.next with
      | .error e => .error e
      | .ok (n, d) =>
        if 0xDC00 ≤ n && n ≤ 0xDFFF then .error (d.stop .surrogateAlone)
        else if 0xD800 ≤ n && n ≤ 0xDBFF then readLowSurrogate n d
        else .ok (Char.ofNat n, d)
    else
      match escapeLetter? ch with
      | some meant => .ok (meant, c.next)
      | none => .error (c.stopPast .escapeUnknown)

/-- The rest of a string, given what was read of it, last character first. The first argument bounds
the number of characters. -/
def readStringFrom : Nat → List Char → Cursor → Scan String
  | 0, _, c => .error (c.stop .stringEnds)
  | fuel + 1, before, c =>
    match c.rest with
    | [] => .error (c.stop .stringEnds)
    | ch :: _ =>
      if ch = '"' then .ok (String.ofList before.reverse, c.next)
      else if ch = '\\' then
        match readEscape c.next with
        | .error e => .error e
        | .ok (meant, d) => readStringFrom fuel (meant :: before) d
      else if ch.toNat < 0x20 then .error (c.stopPast .controlCharacter)
      else readStringFrom fuel (ch :: before) c.next

/-- A string after its opening quote. -/
def readString (c : Cursor) : Scan String := readStringFrom (c.rest.length + 1) [] c

/-! ### Passing over -/

/-- Pass over the exponent of a number, if it has one. -/
def skipExponent (c : Cursor) : Except Stop Cursor :=
  match c.rest with
  | ch :: _ =>
    if ch = 'e' || ch = 'E' then
      let d := match c.next.rest with
        | '+' :: _ => c.next.next
        | '-' :: _ => c.next.next
        | _ => c.next
      let (digits, e) := d.digits
      if digits.isEmpty then .error (d.stopPast .numberMalformed) else .ok e
    else .ok c
  | [] => .ok c

/-- Pass over what follows the whole part of a number. -/
def skipFraction (c : Cursor) : Except Stop Cursor :=
  match c.rest with
  | '.' :: _ =>
    let (digits, d) := c.next.digits
    if digits.isEmpty then .error (d.stopAhead .numberMalformed) else skipExponent d
  | _ => skipExponent c

/-- Pass over a number after its sign. -/
def skipNumber (c : Cursor) : Except Stop Cursor :=
  match c.rest with
  | ch :: _ =>
    if ch = '0' then
      match c.next.rest with
      | d :: _ =>
        if d.isDigit then .error (c.next.stopAhead .numberMalformed) else skipFraction c.next
      | [] => skipFraction c.next
    else if ch.isDigit then skipFraction c.digits.2
    else .error (c.stopPast .numberMalformed)
  | [] => .error (c.stopPast .numberMalformed)

/-- Pass over an escape after its backslash. -/
def skipEscape (c : Cursor) : Except Stop Cursor :=
  match c.rest with
  | [] => .error (c.stop .stringEnds)
  | ch :: _ =>
    if ch = 'u' then (readUnit c.next).map (·.2)
    else if (escapeLetter? ch).isSome then .ok c.next
    else .error (c.stopPast .escapeUnknown)

/-- Pass over the rest of a string; the first argument bounds the number of characters. -/
def skipStringFrom : Nat → Cursor → Except Stop Cursor
  | 0, c => .error (c.stop .stringEnds)
  | fuel + 1, c =>
    match c.rest with
    | [] => .error (c.stop .stringEnds)
    | ch :: _ =>
      if ch = '"' then .ok c.next
      else if ch = '\\' then
        match skipEscape c.next with
        | .error e => .error e
        | .ok d => skipStringFrom fuel d
      else if ch.toNat < 0x20 then .error (c.stop .controlCharacter)
      else skipStringFrom fuel c.next

/-- Pass over a string after its opening quote. -/
def skipString (c : Cursor) : Except Stop Cursor := skipStringFrom (c.rest.length + 1) c

end DatalogClient.Json
