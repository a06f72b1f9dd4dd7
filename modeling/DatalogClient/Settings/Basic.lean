import DatalogClient.Http.Header

/-!
# Settings

Settings say where a server is found: a base address, the address of each operation, headers that
go with every request, and how long to wait. Addresses of operations usually begin with the base
address, and then move with it.

## Main definitions

* `Settings`, `Settings.forApiUrl` — the settings, and their defaults under a base address
* `Settings.withApiUrl` — the settings under another base address
* `Settings.validate` — whether the settings can be used
* `ConfigError` — why there are no settings
-/

namespace DatalogClient

/-- Where a server is found and how it is spoken to. -/
structure Settings where
  apiUrl : String
  fetchSchemaEndpoint : String
  submitQueryEndpoint : String
  translateQueryEndpoint : String
  fetchEntityShapesEndpoint : String
  connectTimeoutMs : UInt64 := 5000
  requestTimeoutMs : UInt64 := 30000
  authHeaders : Http.Headers := []
deriving DecidableEq

/-- Why there are no settings. -/
inductive ConfigError where
  /-- The file could not be read, for a reason that the system gives. -/
  | read (path reason : String)
  /-- The file is no settings file. -/
  | parse
  /-- A setting cannot be used. -/
  | invalid (field message : String)
deriving DecidableEq

/-- The text of the error. -/
def ConfigError.message : ConfigError → String
  | read path reason => "failed to read config file '" ++ path ++ "': " ++ reason
  | parse => "invalid config: TOML parse error"
  | invalid field message => "invalid config: " ++ field ++ ": " ++ message

namespace Settings

/-- A base address without a slash at its end. -/
def trimBase (url : String) : String :=
  match url.toList.reverse with
  | '/' :: rest => String.ofList rest.reverse
  | _ => url

/-- The settings with all operations under a base address. -/
def forApiUrl (url : String) : Settings :=
  let base := trimBase url
  { apiUrl := base
    fetchSchemaEndpoint := base ++ "/api/datomic/schema"
    submitQueryEndpoint := base ++ "/api/datomic/query"
    translateQueryEndpoint := base ++ "/api/datomic/translate-query"
    fetchEntityShapesEndpoint := base ++ "/api/datomic/entity-shapes" }

/-- The settings for a server on this machine. -/
def default : Settings := forApiUrl "http://localhost:8080"

/-- What follows the first text in the second, if that begins with it. -/
def after? : List Char → List Char → Option (List Char)
  | [], s => some s
  | c :: start, d :: s => if c = d then after? start s else none
  | _ :: _, [] => none

/-- An address that begins with the old base begins with the new one instead. -/
def rebase (old new endpoint : String) : String :=
  match after? old.toList endpoint.toList with
  | some rest => new ++ String.ofList rest
  | none => endpoint

/-- The settings under another base address. -/
def withApiUrl (s : Settings) (url : String) : Settings :=
  let base := trimBase url
  let move := rebase s.apiUrl base
  { s with
    apiUrl := base
    fetchSchemaEndpoint := move s.fetchSchemaEndpoint
    submitQueryEndpoint := move s.submitQueryEndpoint
    translateQueryEndpoint := move s.translateQueryEndpoint
    fetchEntityShapesEndpoint := move s.fetchEntityShapesEndpoint }

/-- The settings with a header. -/
def withAuthHeader (s : Settings) (name value : String) : Settings :=
  { s with authHeaders := s.authHeaders.put name value }

/-! ### Checking -/

/-- The text is an address with the scheme of the web, and something follows the two slashes that
is no slash. -/
def isUrl (url : String) : Bool :=
  let host := (after? "http://".toList url.toList).or (after? "https://".toList url.toList)
  match host with
  | some (c :: _) => c != '/'
  | _ => false

/-- An address that can be used. -/
def checkUrl (field url : String) : Except ConfigError Unit :=
  if isUrl url then .ok ()
  else .error (.invalid field ("expected an http(s) URL, got '" ++ url ++ "'"))

/-- A time that can be waited. -/
def checkTimeout (field : String) (ms : UInt64) : Except ConfigError Unit :=
  if ms = 0 then .error (.invalid field "must be greater than zero") else .ok ()

/-- The first setting that cannot be used, if there is one. -/
def validate (s : Settings) : Except ConfigError Unit := do
  checkUrl "api_url" s.apiUrl
  checkUrl "fetch_schema_endpoint" s.fetchSchemaEndpoint
  checkUrl "submit_query_endpoint" s.submitQueryEndpoint
  checkUrl "translate_query_endpoint" s.translateQueryEndpoint
  checkUrl "fetch_entity_shapes_endpoint" s.fetchEntityShapesEndpoint
  checkTimeout "request_timeout_ms" s.requestTimeoutMs
  checkTimeout "connect_timeout_ms" s.connectTimeoutMs

end Settings

end DatalogClient
