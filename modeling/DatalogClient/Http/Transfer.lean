import DatalogClient.Http.Message
import DatalogClient.Text.Hex

/-!
# Messages in transfer

A request goes over a connection as text, and an answer comes back as bytes, all of them until the
connection ends. The body of an answer is what a header says: so many bytes, or chunks, or all that
is left.

## Main definitions

* `Address.ofUrl?` — where an address without encryption leads
* `Request.transferred` — the bytes of a request
* `Outcome.ofTransfer` — the outcome that the bytes of an answer are
-/

namespace DatalogClient.Http

/-- A host, and the number of a service there. -/
structure Address where
  host : String
  service : UInt16

/-- The host and service of an address, as it is written there. -/
def authority (url : String) : List Char :=
  (afterScheme url.toList).takeWhile fun c => c != '/' && c != '?' && c != '#'

/-- Where an address leads. Encrypted connections are not to be had. -/
def Address.ofUrl? (url : String) : Option Address :=
  let host := (authority url).takeWhile (· != ':')
  let service := String.ofList ((authority url).drop (host.length + 1))
  if !"http://".toList.isPrefixOf url.toList then none
  else if service = "" then some ⟨String.ofList host, 80⟩
  else service.toNat?.map fun n => ⟨String.ofList host, n.toUInt16⟩

/-- Add a header where there is none of its name. -/
def Headers.putNew (name value : String) (headers : Headers) : Headers :=
  if headers.any fun h => h.1 = name then headers else headers.put name value

/-- The headers that are transferred. -/
def Request.allHeaders (r : Request) : Headers :=
  (((r.headers.putNew "host" (String.ofList (authority r.url))).putNew "accept" "*/*").put
    "connection" "close").put "content-length" (toString r.body.utf8ByteSize)

/-- The bytes of a request. -/
def Request.transferred (r : Request) : ByteArray :=
  let headers := r.allHeaders.map fun h => h.1 ++ ": " ++ h.2 ++ "\r\n"
  (r.line ++ "\r\n" ++ String.join headers ++ "\r\n" ++ r.body).toUTF8

/-- A line, and what follows its end. -/
def splitLine : List UInt8 → Option (List UInt8 × List UInt8)
  | [] => none
  | 13 :: 10 :: rest => some ([], rest)
  | byte :: rest => (splitLine rest).map fun (line, after) => (byte :: line, after)

/-- A line as text; other bytes than those of ASCII do not count. -/
def lineText (line : List UInt8) : List Char :=
  (line.filter (· < 128)).map fun byte => Char.ofNat byte.toNat

/-- Text without the spaces at its two ends. -/
def stripSpaces (s : List Char) : List Char :=
  ((s.dropWhile (· == ' ')).reverse.dropWhile (· == ' ')).reverse

/-- A header of an answer. -/
def readHeader (line : List Char) : String × String :=
  let name := line.takeWhile (· != ':')
  (String.ofList (name.map Char.toLower),
    String.ofList (stripSpaces (line.drop (name.length + 1))))

/-- The headers of an answer up to the empty line, and what follows that. The first argument bounds
their number. -/
def readHeaders : Nat → List UInt8 → Option (List (String × String) × List UInt8)
  | 0, _ => none
  | fuel + 1, bytes =>
    match splitLine bytes with
    | none => none
    | some ([], rest) => some ([], rest)
    | some (line, rest) =>
      (readHeaders fuel rest).map fun (headers, body) =>
        (readHeader (lineText line) :: headers, body)

/-- The number of a status line. -/
def readStatus (line : List Char) : Option Nat :=
  let afterVersion := (line.dropWhile (· != ' ')).drop 1
  (String.ofList (afterVersion.takeWhile Char.isDigit)).toNat?

/-- The bytes in chunks, each with its size before it. The first argument bounds their number. -/
def readChunks : Nat → List UInt8 → Option (List UInt8)
  | 0, _ => none
  | fuel + 1, bytes =>
    match splitLine bytes with
    | none => none
    | some (line, rest) =>
      match Text.hexNumber? (stripSpaces ((lineText line).takeWhile (· != ';'))) with
      | none => none
      | some 0 => some []
      | some size =>
        if rest.length < size + 2 then none
        else (readChunks fuel (rest.drop (size + 2))).map (rest.take size ++ ·)

/-- The body of an answer. -/
def readBody (headers : List (String × String)) (bytes : List UInt8) : Option (List UInt8) :=
  if headers.lookup "transfer-encoding" = some "chunked" then
    readChunks (bytes.length + 1) bytes
  else
    match (headers.lookup "content-length").bind String.toNat? with
    | some size => if bytes.length < size then none else some (bytes.take size)
    | none => some bytes

/-- The outcome that the bytes of an answer are. -/
def Outcome.ofTransfer (bytes : List UInt8) : Outcome :=
  match splitLine bytes with
  | none => .closed
  | some (line, rest) =>
    match readStatus (lineText line), readHeaders (rest.length + 1) rest with
    | some status, some (headers, rest) =>
      match (readBody headers rest).bind fun body => String.fromUTF8? ⟨body.toArray⟩ with
      | some body => .answered status body
      | none => .truncated
    | _, _ => .closed

end DatalogClient.Http
