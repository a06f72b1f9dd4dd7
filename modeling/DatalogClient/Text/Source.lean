/-!
# Sources of text

A source is a file or the standard input: it is missing, or cannot be read, or holds bytes, which
are a text if they are UTF-8.

## Main definitions

* `Source` — what there is to read
* `Source.text` — its text, or what the system says instead
-/

namespace DatalogClient

/-- What there is to read. -/
inductive Source where
  | missing
  /-- There is something, but it cannot be read, for a reason that the system gives. -/
  | unreadable (reason : String)
  | bytes (content : ByteArray)

namespace Source

/-- What the system says of a file that is not there. -/
def isMissing : String := "No such file or directory (os error 2)"

/-- What the system says of a directory that is read. -/
def isDirectory : String := "Is a directory (os error 21)"

/-- What the system says of bytes that are no text. -/
def notText : String := "stream did not contain valid UTF-8"

/-- The text of a source, or what the system says. -/
def text : Source → Except String String
  | missing => .error isMissing
  | unreadable reason => .error reason
  | bytes content =>
    match String.fromUTF8? content with
    | some text => .ok text
    | none => .error notText

end Source

end DatalogClient
