import DatalogClient.Calendar.Moment
import DatalogClient.Text.Hex
import DatalogClient.Value.Basic

/-!
# Making literals

Typed texts are made from what programs hold: numbers of any size, points in time, bytes. Texts
are taken as they are.

## Main definitions

* `Numeral`, `TypedText.bigint`, `TypedText.bigdec` — numbers
* `Time`, `TypedText.instant` — points in time
* `TypedText.bytes` — bytes
-/

namespace DatalogClient

/-- What a number of any size may be made from. -/
inductive Numeral where
  | text (text : String)
  | int (value : Int)
  | double (value : Float)
  | single (value : Float32)

/-- The number as text: a float without an exponent, and whole if it is whole. -/
def Numeral.shown : Numeral → String
  | text t => t
  | int n => toString n
  | double x => Decimal.plain.double x
  | single x => Decimal.plain.single x

/-- What a point in time may be made from. -/
inductive Time where
  | text (text : String)
  /-- A moment in a zone that is so many seconds ahead. -/
  | zoned (moment : Moment) (ahead : Int)
  /-- So many seconds and nanoseconds from the beginning of 1970. -/
  | system (seconds : Int) (nanos : Nat)

/-- The moment to the millisecond, whatever the zone. -/
def Time.shown : Time → String
  | text t => t
  | zoned moment _ => moment.millisText
  | system seconds nanos => (Moment.ofDuration seconds nanos).millisText

namespace TypedText

/-- A UUID. -/
def uuid (text : String) : TypedText := ⟨.uuid, text⟩

/-- A keyword. -/
def keyword (text : String) : TypedText := ⟨.keyword, text⟩

/-- A symbol. -/
def symbol (text : String) : TypedText := ⟨.symbol, text⟩

/-- A URI. -/
def uri (text : String) : TypedText := ⟨.uri, text⟩

/-- An integer of any size. -/
def bigint (n : Numeral) : TypedText := ⟨.bigint, n.shown⟩

/-- A decimal number of any size. -/
def bigdec (n : Numeral) : TypedText := ⟨.bigdec, n.shown⟩

/-- A point in time. -/
def instant (t : Time) : TypedText := ⟨.instant, t.shown⟩

/-- Bytes as two lower-case hexadecimal digits each. -/
def bytes (bytes : List UInt8) : TypedText := ⟨.bytes, Text.hexBytes bytes⟩

end TypedText

end DatalogClient
