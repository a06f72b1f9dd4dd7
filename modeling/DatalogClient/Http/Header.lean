/-!
# Headers

Headers are kept in the order of their names, one for each name. Which texts can be names and
values follows the rules for messages: a name is a token, a value holds no control character but
the tab.

## Main definitions

* `Headers`, `Headers.put` — headers by name
* `isHeaderName`, `isHeaderValue` — what can be sent
-/

namespace DatalogClient.Http

/-- Headers in the order of their names, which are distinct. -/
abbrev Headers := List (String × String)

/-- Put a header in its place, instead of one of its name. -/
def Headers.put (name value : String) : Headers → Headers
  | [] => [(name, value)]
  | (n, v) :: rest =>
    if name = n then (n, value) :: rest
    else if name < n then (name, value) :: (n, v) :: rest
    else (n, v) :: Headers.put name value rest

/-- A character of tokens. -/
def isTokenChar (c : Char) : Bool := c.isAlphanum || "!#$%&'*+-.^_`|~".toList.contains c

/-- The text can be the name of a header. -/
def isHeaderName (name : String) : Bool := name != "" && name.toList.all isTokenChar

/-- A character that a value may hold. -/
def isValueChar (c : Char) : Bool := c == '\t' || (0x20 ≤ c.toNat && c.toNat != 0x7F)

/-- The text can be the value of a header. -/
def isHeaderValue (value : String) : Bool := value.toList.all isValueChar

end DatalogClient.Http
