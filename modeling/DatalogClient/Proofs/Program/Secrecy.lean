import DatalogClient.Proofs.Program.InStep
import DatalogClient.Proofs.Program.Posting

/-!
# The values of headers do not show

Settings that differ in the values of their headers only make clients that send the same requests
but for these values, and nothing else that a program does depends on them. So two runs with such
settings write the same texts and end with the same status, whatever the commands are given and
whatever servers answer.

## Main definitions

* `Settings.AlikeButValues` — the settings differ in the values of headers only
* `Http.Request.AlikeBut` — the requests differ in the values of some headers only
* `Command.sources` — what a command reads

## Main results

* `Command.sameBut_errand` — a command does the same under settings that differ so
* `header_values_never_show` — what is written, the status and the requests of two runs
-/

namespace DatalogClient

open Errand

/-! ### Requests -/

namespace Http

/-- The headers are the same but for the values under some names. -/
def AlikeBut (names : List String) (headers headers' : Headers) : Prop :=
  List.Forall₂ (fun h h' => h.1 = h'.1 ∧ (h.1 ∉ names → h.2 = h'.2)) headers headers'

/-- The requests are the same but for the values of the headers of some names. -/
structure Request.AlikeBut (names : List String) (r r' : Request) : Prop where
  method : r.method = r'.method
  url : r.url = r'.url
  headers : Http.AlikeBut names r.headers r'.headers
  body : r.body = r'.body
  patience : r.patience = r'.patience

variable {names : List String} {headers headers' : Headers}

/-- Headers stay alike when a header is put among both, of the same value or of one of the names. -/
theorem AlikeBut.put (h : AlikeBut names headers headers') {name value value' : String}
    (hvalue : name ∉ names → value = value') :
    AlikeBut names (headers.put name value) (headers'.put name value') := by
  induction h with
  | nil => exact .cons ⟨rfl, hvalue⟩ .nil
  | @cons first first' rest rest' hfirst hrest ih =>
    obtain ⟨n, v⟩ := first
    obtain ⟨n', v'⟩ := first'
    obtain ⟨rfl, hsame⟩ : n = n' ∧ (n ∉ names → v = v') := hfirst
    -- The place of a header depends on the names only, and these are the same.
    rw [Headers.put, Headers.put]
    split_ifs with heq hlt
    · exact .cons ⟨rfl, heq ▸ hvalue⟩ hrest
    · exact .cons ⟨rfl, hvalue⟩ (.cons ⟨rfl, hsame⟩ hrest)
    · exact .cons ⟨rfl, hsame⟩ ih

end Http

/-! ### Settings -/

namespace Settings

/-- The settings are the same but for the values of headers. -/
structure AlikeButValues (s s' : Settings) : Prop where
  names : s.authHeaders.map (·.1) = s'.authHeaders.map (·.1)
  others : s' = { s with authHeaders := s'.authHeaders }

/-- The values of all headers can be sent. -/
def ValuesSendable (s : Settings) : Prop := ∀ h ∈ s.authHeaders, Http.isHeaderValue h.2 = true

/-- The settings are the same but for the values of headers, and all of these can be sent. -/
structure Interchangeable (s s' : Settings) : Prop where
  alike : s.AlikeButValues s'
  sendable : s.ValuesSendable
  sendable' : s'.ValuesSendable

/-- The names of the headers as they are sent. -/
def headerNames (s : Settings) : List String := s.authHeaders.map fun h => h.1.toLower

variable {s s' : Settings}

theorem AlikeButValues.withApiUrl (h : s.AlikeButValues s') (url : String) :
    (s.withApiUrl url).AlikeButValues (s'.withApiUrl url) where
  names := h.names
  others := by
    rw [h.others]
    rfl

theorem AlikeButValues.validate_eq (h : s.AlikeButValues s') : s.validate = s'.validate := by
  rw [h.others]
  rfl

/-- A file that is there is read as what its text says. -/
theorem load_of_text {path source : String} {file : Source} (hfile : file ≠ .missing)
    (htext : file.text = .ok source) : load path file = ofToml source := by
  cases file with
  | missing => exact absurd rfl hfile
  | unreadable reason => cases htext
  | bytes content => simp only [load, htext]

/-- Of headers the text of the settings shows the names only. -/
theorem AlikeButValues.redacted_eq (h : s.AlikeButValues s') : s.redacted = s'.redacted := by
  have hheaders : s.authHeaders.map (fun header => (header.1, "<redacted>")) =
      s'.authHeaders.map fun header => (header.1, "<redacted>") := by
    have hnames := congrArg (List.map fun name => (name, "<redacted>")) h.names
    rwa [List.map_map, List.map_map] at hnames
  rw [h.others]
  exact congrArg (fun headers => { s with authHeaders := headers }) hheaders

end Settings

/-! ### Clients -/

namespace Client

/-- The clients are the same but for the values of headers under some names. -/
structure AlikeBut (names : List String) (c c' : Client) : Prop where
  settings : c.settings.AlikeButValues c'.settings
  headers : Http.AlikeBut names c.headers c'.headers

variable {names : List String}

/-- Headers that can be sent are put among headers that are alike, or a name that cannot be sent is
found in both cases. -/
theorem foldlM_addHeader_alike {auth auth' : List (String × String)}
    (hauth : auth.map (·.1) = auth'.map (·.1)) (hlower : ∀ h ∈ auth, h.1.toLower ∈ names)
    (hvalues : ∀ h ∈ auth, Http.isHeaderValue h.2 = true)
    (hvalues' : ∀ h ∈ auth', Http.isHeaderValue h.2 = true) {before before' : Http.Headers}
    (hbefore : Http.AlikeBut names before before') :
    (∃ all all', auth.foldlM addHeader before = .ok all ∧
        auth'.foldlM addHeader before' = .ok all' ∧ Http.AlikeBut names all all') ∨
      ∃ e, auth.foldlM addHeader before = .error e ∧
        auth'.foldlM addHeader before' = .error e := by
  induction auth generalizing auth' before before' with
  | nil =>
    obtain rfl := List.map_eq_nil_iff.mp hauth.symm
    exact .inl ⟨before, before', rfl, rfl, hbefore⟩
  | cons h rest ih =>
    obtain ⟨h', rest', rfl, hname, hrest⟩ := List.map_eq_cons_iff.mp hauth.symm
    rw [List.forall_mem_cons] at hlower hvalues hvalues'
    rw [List.foldlM_cons, List.foldlM_cons]
    by_cases hsendable : Http.isHeaderName h.1 = true
    · have hadd : addHeader before h = .ok (before.put h.1.toLower h.2) := by
        simp only [addHeader, hsendable, hvalues.1, Bool.and_self, if_true]
      have hadd' : addHeader before' h' = .ok (before'.put h.1.toLower h'.2) := by
        simp only [addHeader, hname, hsendable, hvalues'.1, Bool.and_self, if_true]
      rw [hadd, hadd']
      exact ih hrest.symm hlower.2 hvalues.2 hvalues'.2
        (hbefore.put fun hnot => absurd hlower.1 hnot)
    · have hadd : addHeader before h = .error ⟨h.1⟩ := by
        simp [addHeader, hsendable]
      have hadd' : addHeader before' h' = .error ⟨h.1⟩ := by
        simp [addHeader, hname, hsendable]
      rw [hadd, hadd']
      exact .inr ⟨⟨h.1⟩, rfl, rfl⟩

/-- Settings that are alike make clients that are, or fail to for the same reason. -/
theorem ofSettings_alike {s s' : Settings} (h : s.Interchangeable s') :
    (∃ c c', ofSettings s = .ok c ∧ ofSettings s' = .ok c' ∧ c.AlikeBut s.headerNames c') ∨
      ∃ e, ofSettings s = .error e ∧ ofSettings s' = .error e := by
  have hlower : ∀ header ∈ s.authHeaders, header.1.toLower ∈ s.headerNames :=
    fun header hmem => List.mem_map_of_mem hmem
  obtain ⟨all, all', hall, hall', halike⟩ | ⟨e, he, he'⟩ :=
    foldlM_addHeader_alike h.alike.names hlower h.sendable h.sendable'
      (.nil : Http.AlikeBut _ [] [])
  · exact .inl ⟨⟨s, all⟩, ⟨s', all'⟩, by rw [ofSettings, hall]; rfl, by rw [ofSettings, hall']; rfl,
      h.alike, halike⟩
  · exact .inr ⟨e, by rw [ofSettings, he]; rfl, by rw [ofSettings, he']; rfl⟩

/-- An exchange of one client and the same exchange of another: the requests are alike, and their
outcomes are read in the same way. -/
def SameExchange {α : Type} (names : List String) (x x' : Exchange α) : Prop :=
  x.request.AlikeBut names x'.request ∧ x.read = x'.read

variable {c c' : Client}

theorem AlikeBut.patience_eq (h : c.AlikeBut names c') : c.patience = c'.patience := by
  rw [patience, patience, h.settings.others]

theorem AlikeBut.post (h : c.AlikeBut names c') (url : String) (document : Document) :
    SameExchange names (c.post url document) (c'.post url document) :=
  ⟨⟨rfl, rfl, h.headers.put fun _ => rfl, rfl, h.patience_eq⟩, rfl⟩

theorem AlikeBut.get (h : c.AlikeBut names c') (url : String) :
    SameExchange names (c.get url) (c'.get url) :=
  ⟨⟨rfl, rfl, h.headers, rfl, h.patience_eq⟩, rfl⟩

theorem AlikeBut.submit (h : c.AlikeBut names c') (document : Document) :
    SameExchange names (c.submit document) (c'.submit document) := by
  have hurl : c'.settings.submitQueryEndpoint = c.settings.submitQueryEndpoint := by
    rw [h.settings.others]
  rw [Client.submit, Client.submit, hurl]
  exact h.post _ document

theorem AlikeBut.translate (h : c.AlikeBut names c') (document : Document) :
    SameExchange names (c.translate document) (c'.translate document) := by
  have hurl : c'.settings.translateQueryEndpoint = c.settings.translateQueryEndpoint := by
    rw [h.settings.others]
  rw [Client.translate, Client.translate, hurl]
  exact h.post _ document

theorem AlikeBut.fetchSchema (h : c.AlikeBut names c') :
    SameExchange names c.fetchSchema c'.fetchSchema := by
  have hurl : c'.settings.fetchSchemaEndpoint = c.settings.fetchSchemaEndpoint := by
    rw [h.settings.others]
  obtain ⟨hrequest, hread⟩ := h.get c.settings.fetchSchemaEndpoint
  rw [Client.fetchSchema, Client.fetchSchema, hurl]
  exact ⟨hrequest, by simp only [Exchange.andThen, hread]⟩

end Client

/-! ### Commands -/

section Commands

variable {names : List String} {reads : SourceName → Prop} {s s' : Settings} {c c' : Client}

/-- The errands differ in the values of the headers of some names only, and come to the same. -/
abbrev Errand.SameBut {α : Type} (names : List String) (reads : SourceName → Prop) :
    Errand α → Errand α → Prop := Errand.InStep (Http.Request.AlikeBut names) reads Eq

/-- The dialogues differ in the values of the headers of some names only, and end the same. -/
abbrev Dialogue.SameBut {α : Type} (names : List String) (reads : SourceName → Prop) :
    Dialogue α → Dialogue α → Prop := Dialogue.InStep (Http.Request.AlikeBut names) reads Eq

namespace Command

/-- What a command reads, beside the settings. -/
def sources : Command → List SourceName
  | validate file => [sourceName file]
  | run file _ _ => [sourceName file]
  | translate file => [sourceName file]
  | schema _ => []
  | config => []
  | shell => [.input]

theorem sameBut_documentText {file : String} (hfile : reads (sourceName file)) :
    SameBut names reads (documentText file) (documentText file) :=
  (inStep_readSource hfile).bind_same fun _ => inStep_ofExcept_same _ _

theorem sameBut_checkedDocument {file : String} (hfile : reads (sourceName file)) :
    SameBut names reads (checkedDocument file) (checkedDocument file) :=
  (sameBut_documentText hfile).bind_same fun _ => inStep_ofExcept_same _ _

theorem sameBut_withFurtherArgs (document : Document) (args : Option String) :
    SameBut names reads (withFurtherArgs document args) (withFurtherArgs document args) := by
  cases args with
  | none => exact inStep_pure rfl
  | some text => exact (inStep_ofExcept_same _ _).bind_same fun _ => inStep_pure rfl

theorem sameBut_checkedUnless (skip : Bool) (document : Document) :
    SameBut names reads (checkedUnless skip document) (checkedUnless skip document) := by
  cases skip with
  | true => exact inStep_pure rfl
  | false => exact (inStep_ofExcept_same _ _).bind_same fun _ => inStep_pure rfl

theorem sameBut_prepared {file : String} (args : Option String) (skip : Bool)
    (hfile : reads (sourceName file)) :
    SameBut names reads (prepared file args skip) (prepared file args skip) := by
  have hdocument : SameBut names reads (uncheckedDocument file) (uncheckedDocument file) :=
    (sameBut_documentText hfile).bind_same fun _ => inStep_ofExcept_same _ _
  apply hdocument.bind_same
  intro decoded
  apply (sameBut_withFurtherArgs decoded args).bind_same
  intro document
  exact sameBut_checkedUnless skip document

/-- Clients are made of settings that are alike. -/
theorem inStep_client (h : s.Interchangeable s') :
    Errand.InStep (Http.Request.AlikeBut names) reads (Client.AlikeBut s.headerNames)
      (client s) (client s') :=
  inStep_ofExcept _ (Client.ofSettings_alike h)

theorem sameBut_answer {α : Type} {x x' : Exchange α} (h : Client.SameExchange names x x') :
    SameBut names reads (answer x) (answer x') :=
  (inStep_lift (inStep_exchange h.1 h.2)).bind_same fun result => inStep_ofExcept_same _ result

theorem sameBut_posting (h : s.Interchangeable s') {x : Client → Exchange Json}
    (hx : ∀ c c', Client.AlikeBut s.headerNames c c' →
      Client.SameExchange s.headerNames (x c) (x c')) :
    SameBut s.headerNames reads (posting s x) (posting s' x) := by
  apply (inStep_client h).bind
  intro c c' hc
  apply (sameBut_answer (hx c c' hc)).bind_same
  intro body
  exact inStep_print _

theorem sameBut_runSchema (options : ListingOptions) (h : s.Interchangeable s') :
    SameBut s.headerNames reads (runSchema s options) (runSchema s' options) := by
  apply (inStep_client h).bind
  intro c c' hc
  apply (sameBut_answer hc.fetchSchema).bind_same
  intro catalog
  split_ifs
  · exact inStep_forM_print _
  · exact inStep_forM_print _

end Command

/-! ### The shell -/

namespace Shell

theorem sameBut_ask {x x' : Document → Exchange Json}
    (hx : ∀ document, Client.SameExchange names (x document) (x' document)) (json : String) :
    Dialogue.SameBut names reads (ask x json) (ask x' json) := by
  unfold ask
  cases Document.checkText json with
  | error e => exact Dialogue.inStep_line _ _
  | ok document =>
    refine Dialogue.InStep.bind_same (inStep_exchange (hx document).1 (hx document).2) ?_
    intro result
    cases result with
    | ok body => exact Dialogue.inStep_line _ _
    | error r => exact Dialogue.inStep_line _ _

/-- A line is obeyed in the same way, and both shells go on or neither does. -/
theorem sameBut_obey (hc : c.AlikeBut names c') (line : ShellLine) :
    Dialogue.SameBut names reads (obey c line) (obey c' line) := by
  have hdone : ∀ b : Bool, Dialogue.SameBut names reads (pure b) (pure b) := fun b => .done rfl
  have hline : ∀ (channel : Channel) (text : String), Dialogue.SameBut names reads
      (do Dialogue.line channel text; return true) (do Dialogue.line channel text; return true) :=
    fun channel text => (Dialogue.inStep_line channel text).bind_same fun _ => hdone true
  cases line with
  | blank => exact hdone true
  | quit => exact hdone false
  | help => exact hline _ _
  | unknown name => exact hline _ _
  | validate json =>
    simp only [obey]
    cases Document.checkText json with
    | ok document => exact hline _ _
    | error e => exact hline _ _
  | translate json => exact (sameBut_ask hc.translate json).bind_same fun _ => hdone true
  | submit json => exact (sameBut_ask hc.submit json).bind_same fun _ => hdone true

/-- Sessions over the same lines are the same, line by line. -/
theorem sameBut_session (hc : c.AlikeBut names c') (lines : List (List UInt8)) :
    SameBut names reads (session c lines) (session c' lines) := by
  induction lines with
  | nil => exact inStep_pure rfl
  | cons line rest ih =>
    unfold session
    cases String.fromUTF8? ⟨line.toArray⟩ with
    | none => exact .done rfl
    | some text =>
      refine (inStep_lift (sameBut_obey hc (.ofText text))).bind_same ?_
      intro goOn
      cases goOn with
      | true => exact ih
      | false => exact inStep_pure rfl

end Shell

namespace Command

theorem sameBut_runShell (hinput : reads .input) (h : s.Interchangeable s') :
    SameBut s.headerNames reads (runShell s) (runShell s') := by
  have hurl : s'.apiUrl = s.apiUrl := by rw [h.alike.others]
  apply (inStep_client h).bind
  intro c c' hc
  rw [hurl]
  apply (inStep_print _).bind_same
  intro _
  apply (inStep_readSource hinput).bind_same
  intro source
  cases source with
  | bytes content => exact Shell.sameBut_session hc _
  | missing => exact inStep_pure rfl
  | unreadable reason => exact inStep_pure rfl

/-- Under settings that differ in the values of headers only, a command does the same but for these
values in its requests. -/
theorem sameBut_errand (command : Command) (h : s.Interchangeable s') :
    SameBut s.headerNames (· ∈ command.sources) (command.errand s) (command.errand s') := by
  cases command with
  | validate file =>
    apply (sameBut_checkedDocument List.mem_cons_self).bind_same
    intro document
    exact inStep_print _
  | run file args skip =>
    rw [errand, errand, runRun_eq, runRun_eq]
    apply (sameBut_prepared args skip List.mem_cons_self).bind_same
    intro document
    exact sameBut_posting h fun c c' hc => hc.submit document
  | translate file =>
    rw [errand, errand, runTranslate_eq, runTranslate_eq]
    apply (sameBut_checkedDocument List.mem_cons_self).bind_same
    intro document
    exact sameBut_posting h fun c c' hc => hc.translate document
  | schema options => exact sameBut_runSchema options h
  | config =>
    rw [errand, errand, runConfig, runConfig, h.alike.redacted_eq]
    exact inStep_lift (.write (.done rfl))
  | shell => exact sameBut_runShell List.mem_cons_self h

end Command

/-! ### Programs -/

/-- What a program does about an errand: trouble is told, and the status says whether there was
any. -/
def Errand.told (e : Errand Unit) : Dialogue Status := do
  match ← e.run with
  | .ok () => return .success
  | .error trouble =>
    .line .errors trouble.shown
    return .failure

/-- The same trouble is told in the same way. -/
theorem Errand.sameBut_told {e e' : Errand Unit} (h : SameBut names reads e e') :
    Dialogue.SameBut names reads e.told e'.told := by
  apply Dialogue.InStep.bind (show Dialogue.InStep _ _ (Errand.Agree Eq) e.run e'.run from h)
  intro result result' hresult
  cases result with
  | ok _ =>
    cases result' with
    | ok _ => exact .done rfl
    | error t => exact hresult.elim
  | error t =>
    cases result' with
    | ok _ => exact hresult.elim
    | error t' =>
      obtain rfl : t = t' := hresult
      exact (Dialogue.inStep_line _ _).bind_same fun _ => .done rfl

namespace Invocation

variable {i : Invocation}

/-- The settings of an invocation whose file has been read. -/
def settingsOf (i : Invocation) (file : Source) : Errand Settings := do
  let settings ← ofExcept (fun e => (Trouble.ofConfig e).during ("loading " ++ i.config))
    (Settings.load i.config file)
  match i.apiUrl with
  | none => return settings
  | some url =>
    let settings := settings.withApiUrl url
    ofExcept .ofConfig settings.validate
    return settings

/-- An invocation reads its settings file first of all. -/
theorem dialogue_eq (i : Invocation) :
    i.dialogue = .read (.file i.config) fun file =>
      (i.settingsOf file >>= fun settings => i.command.errand settings).told := rfl

/-- Files whose settings differ in the values of headers only go on to do so under another
address. -/
theorem inStep_settingsOf {file file' : Source} (hs : Settings.load i.config file = .ok s)
    (hs' : Settings.load i.config file' = .ok s') (h : s.Interchangeable s') :
    Errand.InStep (Http.Request.AlikeBut names) reads
      (fun t t' => t.Interchangeable t' ∧ t.headerNames = s.headerNames)
      (i.settingsOf file) (i.settingsOf file') := by
  have hloaded : ∀ (trouble : ConfigError → Trouble) (t : Settings),
      ofExcept trouble (.ok t) = pure t := fun _ _ => rfl
  unfold settingsOf
  rw [hs, hs', hloaded, hloaded, pure_bind, pure_bind]
  cases i.apiUrl with
  | none => exact inStep_pure ⟨h, rfl⟩
  | some url =>
    have hurl := h.alike.withApiUrl url
    simp only [hurl.validate_eq]
    apply (inStep_ofExcept_same _ _).bind_same
    intro _
    exact inStep_pure ⟨⟨hurl, h.sendable, h.sendable'⟩, rfl⟩

end Invocation

/-- The values of headers never show. Under settings that differ in these values only, provided
all of them can be sent, a command writes the same texts, ends with the same status and sends the
same requests but for these values, given the same sources to read and the same answers. So does a
whole command line whose settings file is the one thing that differs. -/
theorem header_values_never_show :
    (∀ (command : Command) (s s' : Settings) (scene scene' : Scene), s.Interchangeable s' →
      scene.Agree (· ∈ command.sources) scene' →
        ((command.errand s).told.play scene).1.Alike (Http.Request.AlikeBut s.headerNames)
            ((command.errand s').told.play scene').1 ∧
          ((command.errand s).told.play scene).2.1 = ((command.errand s').told.play scene').2.1) ∧
      ∀ (around : Surroundings) (arguments : List String) (i : Invocation) (s s' : Settings)
        (scene scene' : Scene), Invocation.ofArguments around arguments = .ok i →
        Settings.load i.config (scene.source (.file i.config)) = .ok s →
        Settings.load i.config (scene'.source (.file i.config)) = .ok s' →
        s.Interchangeable s' → scene.Agree (· ∈ i.command.sources) scene' →
          ((program around arguments).play scene).1.Alike (Http.Request.AlikeBut s.headerNames)
              ((program around arguments).play scene').1 ∧
            ((program around arguments).play scene).2.1 =
              ((program around arguments).play scene').2.1 := by
  constructor
  · intro command s s' scene scene' h hscenes
    exact (Errand.sameBut_told (command.sameBut_errand h)).play hscenes
  · intro around arguments i s s' scene scene' hi hs hs' h hscenes
    have hprogram : program around arguments = i.dialogue := by rw [program, hi]
    rw [hprogram, Invocation.dialogue_eq]
    -- The file is read first, and from then on the two runs are in step.
    refine Dialogue.InStep.play (Errand.sameBut_told ?_) hscenes
    apply (Invocation.inStep_settingsOf hs hs' h).bind
    rintro t t' ⟨ht, hnames⟩
    rw [← hnames]
    exact i.command.sameBut_errand ht

end Commands

/-- A world with a settings file that holds a secret, and the file of one question. -/
def secretive (secret : String) : Scene where
  source
    | .file "dq.toml" => .bytes ("[auth_headers]\nX-Key = \"" ++ secret ++ "\"\n").toUTF8
    | .file "q.json" => .bytes "\x7b\"find\":[\"?e\"]\x7d".toUTF8
    | _ => .missing
  script := [.answered 200 "[]"]

/-- The settings with the secret. -/
def secretSettings (secret : String) : Settings :=
  { Settings.default with authHeaders := [("X-Key", secret)] }

/-- The settings of the file are those of its text. -/
theorem load_secretive (secret : String)
    (h : Settings.ofToml ("[auth_headers]\nX-Key = \"" ++ secret ++ "\"\n") =
      .ok (secretSettings secret)) :
    Settings.load "dq.toml" ((secretive secret).source (.file "dq.toml")) =
      .ok (secretSettings secret) :=
  (Settings.load_of_text Source.noConfusion (Source.text_toUTF8 _)).trans h

/-- Two secrets are sent, and nothing else tells the two runs from each other. -/
theorem secrets_unseen :
    Settings.load "dq.toml" ((secretive "one").source (.file "dq.toml")) =
        .ok (secretSettings "one") ∧
      Settings.load "dq.toml" ((secretive "two").source (.file "dq.toml")) =
        .ok (secretSettings "two") ∧
      (secretSettings "one").Interchangeable (secretSettings "two") ∧
      ((program {} ["run", "q.json"]).play (secretive "one")).1.Alike
        (Http.Request.AlikeBut ["x-key"])
        ((program {} ["run", "q.json"]).play (secretive "two")).1 := by
  have hone := load_secretive "one" (by decide +kernel)
  have htwo := load_secretive "two" (by decide +kernel)
  have halike : (secretSettings "one").Interchangeable (secretSettings "two") :=
    ⟨⟨rfl, rfl⟩, by simp [Settings.ValuesSendable, secretSettings]; decide,
      by simp [Settings.ValuesSendable, secretSettings]; decide⟩
  have hscenes : (secretive "one").Agree (· ∈ [.file "q.json"]) (secretive "two") :=
    ⟨rfl, by simp [secretive]⟩
  have hnames : (secretSettings "one").headerNames = ["x-key"] := by decide +kernel
  refine ⟨hone, htwo, halike, ?_⟩
  rw [← hnames]
  exact (header_values_never_show.2 {} ["run", "q.json"] _ _ _ _ _ rfl hone htwo halike hscenes).1

end DatalogClient
