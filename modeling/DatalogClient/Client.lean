import DatalogClient.Document.Wire
import DatalogClient.Failure.Report
import DatalogClient.Http.Message
import DatalogClient.Schema.Wire
import DatalogClient.Text.Quoted

/-!
# The client of a server

A client knows the addresses of a server and the headers that go with every request. Each thing
that it can be asked for is an exchange: one request, and a way to read what becomes of it.

## Main definitions

* `Client`, `Client.ofSettings` — a client, if the headers can be sent
* `Exchange` — one request and the reading of its outcome
* `Client.submit`, `Client.translate`, `Client.fetchSchema`, `Client.fetchEntityShapes` — the
  exchanges
-/

namespace DatalogClient

/-- A header that cannot be sent. -/
structure HeaderError where
  name : String

/-- The text of the error. -/
def HeaderError.message (e : HeaderError) : String := "invalid auth header '" ++ e.name ++ "'"

/-- The report of a header that cannot be sent. -/
def Report.ofHeader (e : HeaderError) : Report := ⟨.config, .client, e.message⟩

/-- A client of a server. -/
structure Client where
  settings : Settings
  /-- Headers of every request. Names are in lower case. -/
  headers : Http.Headers

/-- One request and the reading of its outcome. -/
structure Exchange (α : Type) where
  request : Http.Request
  read : Http.Outcome → Except SubmitError α

/-- The same exchange, where more is done with what is read. -/
def Exchange.andThen {α β : Type} (e : Exchange α) (next : α → Except SubmitError β) : Exchange β :=
  ⟨e.request, fun outcome => (e.read outcome).bind next⟩

namespace Client

/-- Put one header of the settings among those of the requests. -/
def addHeader (headers : Http.Headers) (header : String × String) :
    Except HeaderError Http.Headers :=
  if Http.isHeaderName header.1 && Http.isHeaderValue header.2 then
    .ok (headers.put header.1.toLower header.2)
  else .error ⟨header.1⟩

/-- The client for some settings. Of names that differ in case only, the last one counts. -/
def ofSettings (s : Settings) : Except HeaderError Client :=
  (s.authHeaders.foldlM addHeader []).map fun headers => ⟨s, headers⟩

/-- What describes a client where programs are examined. The values of headers are left out. -/
def shown (c : Client) : String :=
  "ApiClient \x7b submit_query_endpoint: " ++ Text.quoted c.settings.submitQueryEndpoint ++
    ", auth_headers: [" ++
    String.intercalate ", " (c.settings.authHeaders.map fun h => Text.quoted h.1) ++
    "], request_timeout_ms: " ++ toString c.settings.requestTimeoutMs.toNat ++ ", .. \x7d"

/-- A status of success. -/
def isSuccess (status : Nat) : Bool := 200 ≤ status && status < 300

/-- The body of an answer that reports no failure. -/
def readBody (url : String) (outcome : Http.Outcome) : Except SubmitError Json :=
  match outcome.answer url with
  | .error message => .error (.transport message)
  | .ok (status, text) =>
    if isSuccess status then
      match Json.ofText text with
      | .error p => .error (.decode p.message)
      | .ok body => checkResponse body
    else .error (.status status (Json.ofText text).toOption)

/-- How long the client waits. -/
def patience (c : Client) : Http.Patience :=
  ⟨c.settings.connectTimeoutMs.toNat, c.settings.requestTimeoutMs.toNat⟩

/-- The exchange in which a document is sent. -/
def post (c : Client) (url : String) (document : Document) : Exchange Json where
  request :=
    { method := .post
      url
      headers := c.headers.put "content-type" "application/json"
      body := document.text
      patience := c.patience }
  read := readBody url

/-- The exchange in which nothing is sent but the question. -/
def get (c : Client) (url : String) : Exchange Json where
  request := { method := .get, url, headers := c.headers, body := "", patience := c.patience }
  read := readBody url

/-- The list in an envelope. -/
def openEnvelope {α : Type} (item : Decoder α) (body : Json) : Except SubmitError (List α) :=
  match Envelope.decode item (.ofJson body) with
  | .ok envelope => .ok envelope.data
  | .error p => .error (.decode p.message)

/-- Execute a document. -/
def submit (c : Client) (document : Document) : Exchange Json :=
  c.post c.settings.submitQueryEndpoint document

/-- Have a document put into the words of the server. -/
def translate (c : Client) (document : Document) : Exchange Json :=
  c.post c.settings.translateQueryEndpoint document

/-- The entries of the schema. -/
def fetchSchema (c : Client) : Exchange (List SchemaEntry) :=
  (c.get c.settings.fetchSchemaEndpoint).andThen (openEnvelope SchemaEntry.decode)

/-- The shapes of entities. -/
def fetchEntityShapes (c : Client) : Exchange (List EntityShape) :=
  (c.get c.settings.fetchEntityShapesEndpoint).andThen (openEnvelope EntityShape.decode)

end Client

end DatalogClient
