import DatalogClient.Json.Basic
import DatalogClient.Settings.Basic
import DatalogClient.Text.Blank
import DatalogClient.Text.Source
import DatalogClient.Toml.Printer
import DatalogClient.Toml.Reader

/-!
# Settings files

A settings file is a TOML table of settings, each of which may be absent; then it follows from the
base address. Headers with a blank name or without a value do not count.

## Main definitions

* `Settings.ofToml`, `Settings.load` — the settings of a text and of a file
* `Settings.toToml`, `Settings.toJson` — settings as text
-/

namespace DatalogClient.Settings

/-- Settings of a file, where they are there. -/
structure Partial where
  apiUrl : Option String := none
  fetchSchemaEndpoint : Option String := none
  submitQueryEndpoint : Option String := none
  translateQueryEndpoint : Option String := none
  fetchEntityShapesEndpoint : Option String := none
  authHeaders : List (String × String) := []
  connectTimeoutMs : Option UInt64 := none
  requestTimeoutMs : Option UInt64 := none

/-- A time in milliseconds. -/
def milliseconds? (n : Int) : Option UInt64 :=
  if 0 ≤ n ∧ n < UInt64.size then some n.toNat.toUInt64 else none

/-- The headers of a table, which holds texts only. -/
def headersOf? : Toml.Table → Option (List (String × String))
  | [] => some []
  | (name, .text value) :: rest => (headersOf? rest).map ((name, value) :: ·)
  | _ :: _ => none

/-- Take one entry of a file. -/
def Partial.take? (p : Partial) (name : String) (value : Toml) : Option Partial :=
  match name, value with
  | "api_url", .text url => some { p with apiUrl := url }
  | "fetch_schema_endpoint", .text url => some { p with fetchSchemaEndpoint := url }
  | "submit_query_endpoint", .text url => some { p with submitQueryEndpoint := url }
  | "translate_query_endpoint", .text url => some { p with translateQueryEndpoint := url }
  | "fetch_entity_shapes_endpoint", .text url => some { p with fetchEntityShapesEndpoint := url }
  | "auth_headers", .table _ entries =>
    (headersOf? entries).map fun headers => { p with authHeaders := headers }
  | "connect_timeout_ms", .int n =>
    (milliseconds? n).map fun ms => { p with connectTimeoutMs := some ms }
  | "request_timeout_ms", .int n =>
    (milliseconds? n).map fun ms => { p with requestTimeoutMs := some ms }
  | _, _ => none

/-- The settings of a table. Every entry must be one that settings have. -/
def partialOf? (table : Toml.Table) : Option Partial :=
  table.foldlM (fun p entry => Partial.take? p entry.1 entry.2) {}

/-- A header that counts. -/
def isHeader (header : String × String) : Bool := Text.trim header.1 != "" && header.2 != ""

/-- Settings with what is absent filled in. -/
def Partial.resolve (p : Partial) : Settings :=
  let base := (p.apiUrl.map forApiUrl).getD Settings.default
  { apiUrl := base.apiUrl
    fetchSchemaEndpoint := p.fetchSchemaEndpoint.getD base.fetchSchemaEndpoint
    submitQueryEndpoint := p.submitQueryEndpoint.getD base.submitQueryEndpoint
    translateQueryEndpoint := p.translateQueryEndpoint.getD base.translateQueryEndpoint
    fetchEntityShapesEndpoint := p.fetchEntityShapesEndpoint.getD base.fetchEntityShapesEndpoint
    connectTimeoutMs := p.connectTimeoutMs.getD base.connectTimeoutMs
    requestTimeoutMs := p.requestTimeoutMs.getD base.requestTimeoutMs
    authHeaders :=
      (p.authHeaders.filter isHeader).foldl (fun headers h => headers.put h.1 h.2) [] }

/-- The settings of a text. -/
def ofToml (source : String) : Except ConfigError Settings :=
  match (Toml.ofText? source).bind partialOf? with
  | none => .error .parse
  | some p => do
    p.resolve.validate
    return p.resolve

/-- The settings of a file. Without a file there are the defaults. -/
def load (path : String) (file : Source) : Except ConfigError Settings :=
  match file with
  | .missing => .ok Settings.default
  | file =>
    match file.text with
    | .ok source => ofToml source
    | .error reason => .error (.read path reason)

/-! ### As text -/

/-- The addresses with their names, in order. -/
def addresses (s : Settings) : List (String × String) :=
  [("api_url", s.apiUrl), ("fetch_schema_endpoint", s.fetchSchemaEndpoint),
   ("submit_query_endpoint", s.submitQueryEndpoint),
   ("translate_query_endpoint", s.translateQueryEndpoint),
   ("fetch_entity_shapes_endpoint", s.fetchEntityShapesEndpoint)]

/-- The waiting times with their names, in order. -/
def timeouts (s : Settings) : List (String × UInt64) :=
  [("connect_timeout_ms", s.connectTimeoutMs), ("request_timeout_ms", s.requestTimeoutMs)]

/-- The settings as JSON. -/
def toJson (s : Settings) : Json :=
  .obj (s.addresses.map (fun (name, url) => (name, .str url)) ++
    s.timeouts.map (fun (name, ms) => (name, .int ms.toNat)) ++
    [("auth_headers", .obj (s.authHeaders.map fun (name, value) => (name, .str value)))])

/-- One line of a settings file. -/
def line (name : String) (value : List Char) : List Char :=
  Toml.writeKey name ++ [' ', '=', ' '] ++ value ++ ['\n']

/-- The settings as a settings file. -/
def toToml (s : Settings) : String :=
  String.ofList
    (s.addresses.flatMap (fun (name, url) => line name (Toml.writeText url)) ++
      s.timeouts.flatMap (fun (name, ms) => line name (toString ms.toNat).toList) ++
      "\n[auth_headers]\n".toList ++
      s.authHeaders.flatMap fun (name, value) => line name (Toml.writeText value))

/-- The settings without the values of the headers. -/
def redacted (s : Settings) : Settings :=
  { s with authHeaders := s.authHeaders.map fun (name, _) => (name, "<redacted>") }

end DatalogClient.Settings
