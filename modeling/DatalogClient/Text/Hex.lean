/-!
# Hexadecimal digits

Lower-case digits to the base sixteen, as bytes are written, and the value of a digit of either
case, as escapes are read.

## Main definitions

* `hexDigit` — the digit of a value below sixteen
* `hexBytes` — two digits a byte
* `hexNumber` — a number without leading zeros
* `hexValue?` — the value of a digit
-/

namespace DatalogClient.Text

/-- The lower-case digit of a value below sixteen. -/
def hexDigit (n : Nat) : Char :=
  if n < 10 then Char.ofNat (48 + n) else Char.ofNat (87 + n)

/-- The value of a hexadecimal digit of either case. -/
def hexValue? (c : Char) : Option Nat :=
  if '0' ≤ c && c ≤ '9' then some (c.toNat - 48)
  else if 'a' ≤ c && c ≤ 'f' then some (c.toNat - 87)
  else if 'A' ≤ c && c ≤ 'F' then some (c.toNat - 55)
  else none

/-- The value of several hexadecimal digits, if they are digits all. -/
def hexNumber? (digits : List Char) : Option Nat :=
  digits.foldl (fun n c => n.bind fun n => (hexValue? c).map (16 * n + ·)) (some 0)

/-- Bytes as two lower-case digits each. -/
def hexBytes (bytes : List UInt8) : String :=
  String.ofList (bytes.flatMap fun b => [hexDigit (b.toNat / 16), hexDigit (b.toNat % 16)])

/-- A number to the base sixteen without leading zeros. -/
def hexNumber (n : Nat) : List Char := Nat.toDigits 16 n

/-- A digit reads back to its value. -/
theorem hexValue?_hexDigit (n : Nat) (h : n < 16) : hexValue? (hexDigit n) = some n := by
  have cases : ∀ k : Fin 16, hexValue? (hexDigit k) = some k.val := by decide
  exact cases ⟨n, h⟩

end DatalogClient.Text
