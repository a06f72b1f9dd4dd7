import DatalogClient.Program.Run
import DatalogClient.Proofs.Document.Nesting
import DatalogClient.Proofs.Program.Course

/-!
# What is posted

The commands that post a document read, extend and check it first, and make a client last. So a
request is handed over only if nothing was wrong before, and it is the only one; a command that
hands nothing over, or gets an error for an answer, fails and writes no output.

## Main definitions

* `Invocation.Configured`, `Settings.Sendable` — the settings of an invocation can be used
* `Command.Accepts` — the document that comes of a file, further arguments and a check
* `Invocation.Posts` — an invocation has a document to post to an address

## Main results

* `Command.course_runRun`, `Command.course_runTranslate` — the commands prepare a document, and
  then post it
* `program_posts` — when a command line hands a request over, which one, and what comes of it
-/

namespace DatalogClient

/-! ### Settings -/

namespace Settings

/-- All headers can be sent. -/
def Sendable (s : Settings) : Prop :=
  ∀ h ∈ s.authHeaders, Http.isHeaderName h.1 = true ∧ Http.isHeaderValue h.2 = true

/-- The settings of a text have been checked. -/
theorem validate_of_ofToml {source : String} {s : Settings} (h : ofToml source = .ok s) :
    s.validate = .ok () := by
  unfold ofToml at h
  cases hp : (Toml.ofText? source).bind partialOf? with
  | none => simp [hp] at h
  | some p =>
    cases hvalid : p.resolve.validate with
    | error e => simp [hp, hvalid, bind, Except.bind] at h
    | ok =>
      simp only [hp, hvalid, bind, Except.bind, pure, Except.pure, Except.ok.injEq] at h
      rw [← h, hvalid]

theorem validate_default : Settings.default.validate = .ok () := by rfl

/-- Settings that are loaded can be used, also where there is no file. -/
theorem validate_of_load {path : String} {file : Source} {s : Settings}
    (h : load path file = .ok s) : s.validate = .ok () := by
  cases file with
  | missing =>
    obtain rfl := Except.ok.inj h
    exact validate_default
  | unreadable reason => cases h
  | bytes content =>
    simp only [load] at h
    split at h
    · exact validate_of_ofToml h
    · cases h

end Settings

namespace Client

theorem foldlM_addHeader_isOk (headers : List (String × String)) (before : Http.Headers) :
    (∃ all, headers.foldlM addHeader before = .ok all) ↔
      ∀ h ∈ headers, Http.isHeaderName h.1 = true ∧ Http.isHeaderValue h.2 = true := by
  -- Whether a header can be sent does not depend on those that are there before.
  induction headers generalizing before with
  | nil => simp [pure, Except.pure]
  | cons h rest ih =>
    by_cases hh : Http.isHeaderName h.1 = true ∧ Http.isHeaderValue h.2 = true
    · simp [List.foldlM_cons, addHeader, hh, bind, Except.bind, ih]
    · have hno : addHeader before h = .error ⟨h.1⟩ := by
        simp only [addHeader, Bool.and_eq_true, hh, if_false]
      simp [List.foldlM_cons, hno, bind, Except.bind, hh]

/-- There is a client for settings whose headers can be sent. -/
theorem exists_ofSettings_iff (s : Settings) :
    (∃ c, ofSettings s = .ok c) ↔ s.Sendable := by
  rw [Settings.Sendable, ← foldlM_addHeader_isOk s.authHeaders []]
  unfold ofSettings
  cases s.authHeaders.foldlM addHeader [] <;> simp [Except.map]

/-- A client keeps its settings. -/
theorem settings_of_ofSettings {s : Settings} {c : Client} (h : ofSettings s = .ok c) :
    c.settings = s := by
  unfold ofSettings at h
  cases hheaders : s.authHeaders.foldlM addHeader [] with
  | error e => simp [hheaders, Except.map] at h
  | ok headers => simp only [hheaders, Except.map, Except.ok.injEq] at h; rw [← h]

end Client

/-- The settings of an invocation are loaded from the file, put under the address that is given,
and can be used. -/
structure Invocation.Configured (i : Invocation) (scene : Scene) (s : Settings) : Prop where
  loaded : ∃ loaded, Settings.load i.config (scene.source (.file i.config)) = .ok loaded ∧
    s = i.apiUrl.elim loaded loaded.withApiUrl
  valid : s.validate = .ok ()

open Errand

/-- Settings are had without a mark. -/
theorem Invocation.comesTo_settings (i : Invocation) (scene : Scene) :
    i.settings.ComesTo scene (i.Configured scene) := by
  have hload := fun trouble => comesTo_ofExcept trouble
    (Settings.load i.config (scene.source (.file i.config))) scene
  unfold settings ComesTo
  rw [course_readSource_bind]
  cases hurl : i.apiUrl with
  | none =>
    refine ((hload _).bind fun s _ => comesTo_pure s scene).congr fun s => ⟨?_, ?_⟩
    · rintro ⟨s, hs, rfl⟩
      exact ⟨⟨s, hs, by rw [hurl]; rfl⟩, Settings.validate_of_load hs⟩
    · rintro ⟨⟨s', hs, rfl⟩, -⟩
      exact ⟨s', hs, by rw [hurl]; rfl⟩
  | some url =>
    -- Settings under another address are checked once more.
    refine ((hload _).bind fun s _ => (comesTo_ofExcept _ _ scene).bind fun _ _ =>
      comesTo_pure _ scene).congr fun s => ⟨?_, ?_⟩
    · rintro ⟨s, hs, ⟨⟩, hvalid, rfl⟩
      exact ⟨⟨s, hs, by rw [hurl]; rfl⟩, hvalid⟩
    · rintro ⟨⟨s', hs, rfl⟩, hvalid⟩
      rw [hurl] at hvalid
      exact ⟨s', hs, (), hvalid, by rw [hurl]; rfl⟩

/-! ### Documents -/

/-- A source that holds the bytes of a text is read as the text. -/
theorem Source.text_toUTF8 (text : String) : (Source.bytes text.toUTF8).text = .ok text := by
  simp only [Source.text, String.toUTF8_eq_toByteArray, String.fromUTF8?,
    dif_pos text.isValidUTF8]
  rfl

/-- What comes of a text that is read and checked is what is read there, and it is valid. -/
theorem Document.checkText_eq_ok_iff {text : String} {d : Document} :
    checkText text = .ok d ↔ ofText text = .ok d ∧ d.validate = .ok () := by
  unfold checkText checked
  cases ofText text with
  | error e => simp
  | ok decoded =>
    constructor
    · intro h
      cases hvalid : decoded.validate with
      | error e => simp [hvalid] at h
      | ok =>
        simp only [hvalid, Except.ok.injEq] at h
        exact ⟨congrArg _ h, h ▸ hvalid⟩
    · rintro ⟨h, hvalid⟩
      obtain rfl := Except.ok.inj h
      simp only [hvalid]

namespace Command

/-- The document with what the text of further arguments lists after its own arguments, if there
is such a text. -/
def Extends (document : Document) (args : Option String) (extended : Document) : Prop :=
  match args with
  | none => extended = document
  | some text => ∃ values, Json.decodeText (Json.each Value.decode) text = .ok values ∧
      extended = { document with args := some (document.args.getD [] ++ values) }

/-- The document of the file, with further arguments, and checked unless that is to be skipped. -/
def Accepts (scene : Scene) (file : String) (args : Option String) (skip : Bool)
    (document : Document) : Prop :=
  ∃ text decoded, (scene.source (sourceName file)).text = .ok text ∧
    Document.ofText text = .ok decoded ∧ Extends decoded args document ∧
    (skip = true ∨ document.validate = .ok ())

/-- The text of a document is had without a mark. -/
theorem comesTo_documentText (file : String) (scene : Scene) :
    (documentText file).ComesTo scene ((scene.source (sourceName file)).text = .ok ·) := by
  unfold documentText ComesTo
  rw [course_readSource_bind]
  exact comesTo_ofExcept _ _ scene

theorem comesTo_withFurtherArgs (document : Document) (args : Option String) (scene : Scene) :
    (withFurtherArgs document args).ComesTo scene (Extends document args) := by
  cases args with
  | none => exact (comesTo_pure document scene).congr fun _ => eq_comm
  | some text =>
    refine ((comesTo_ofExcept _ _ scene).bind fun values _ => comesTo_pure _ scene).congr
      fun extended => ?_
    simp only [Extends, argsOf, Document.withArgs, eq_comm]

theorem comesTo_uncheckedDocument (file : String) (scene : Scene) :
    (uncheckedDocument file).ComesTo scene fun document =>
      ∃ text, (scene.source (sourceName file)).text = .ok text ∧
        Document.ofText text = .ok document :=
  (comesTo_documentText file scene).bind fun _ _ => comesTo_ofExcept _ _ scene

theorem comesTo_checkedDocument (file : String) (scene : Scene) :
    (checkedDocument file).ComesTo scene (Accepts scene file none false) := by
  refine ((comesTo_documentText file scene).bind fun _ _ =>
    comesTo_ofExcept _ _ scene).congr fun document => ?_
  simp only [Document.checkText_eq_ok_iff, Accepts, Extends]
  constructor
  · rintro ⟨text, htext, hdecoded, hvalid⟩
    exact ⟨text, document, htext, hdecoded, rfl, .inr hvalid⟩
  · rintro ⟨text, decoded, htext, hdecoded, rfl, hskip | hvalid⟩
    · cases hskip
    · exact ⟨text, htext, hdecoded, hvalid⟩

/-- The document itself, checked unless that is to be skipped. -/
def checkedUnless (skip : Bool) (document : Document) : Errand Document := do
  unless skip do
    ofExcept (fun e => .ofReport (.ofFailure (.ofValidate (.invalid e)))) document.validate
  return document

theorem comesTo_checkedUnless (skip : Bool) (document : Document) (scene : Scene) :
    (checkedUnless skip document).ComesTo scene fun checked =>
      (skip = true ∨ document.validate = .ok ()) ∧ document = checked := by
  cases skip with
  | true =>
    refine (comesTo_pure document scene).congr fun checked => ⟨fun heq => ⟨.inl rfl, heq⟩, ?_⟩
    exact fun h => h.2
  | false =>
    refine ((comesTo_ofExcept _ _ scene).bind fun _ _ => comesTo_pure _ scene).congr
      fun checked => ⟨?_, ?_⟩
    · rintro ⟨⟨⟩, hvalid, heq⟩
      exact ⟨.inr hvalid, heq⟩
    · rintro ⟨hskip | hvalid, heq⟩
      · cases hskip
      · exact ⟨(), hvalid, heq⟩

/-- What is done before a document is run. The check comes last, so that it is the extended
document that is checked. -/
def prepared (file : String) (args : Option String) (skip : Bool) : Errand Document := do
  let document ← uncheckedDocument file
  let document ← withFurtherArgs document args
  checkedUnless skip document

theorem comesTo_prepared (file : String) (args : Option String) (skip : Bool) (scene : Scene) :
    (prepared file args skip).ComesTo scene (Accepts scene file args skip) := by
  refine ((comesTo_uncheckedDocument file scene).bind fun decoded _ =>
    (comesTo_withFurtherArgs decoded args scene).bind fun document _ =>
      comesTo_checkedUnless skip document scene).congr fun document => ⟨?_, ?_⟩
  · rintro ⟨decoded, ⟨text, htext, hdecoded⟩, document, hextends, hvalid, rfl⟩
    exact ⟨text, decoded, htext, hdecoded, hextends, hvalid⟩
  · rintro ⟨text, decoded, htext, hdecoded, hextends, hvalid⟩
    exact ⟨decoded, ⟨text, htext, hdecoded⟩, document, hextends, hvalid, rfl⟩

/-- To check a document needs nobody else. -/
theorem handed_runValidate (file : String) (scene : Scene) :
    ((runValidate file).course scene).handed = [] := by
  unfold runValidate
  obtain ⟨-, t, ht⟩ | ⟨document, -, hdocument⟩ :=
    (comesTo_checkedDocument file scene).course_bind fun document =>
      print ("ok: " ++ toString document.find.length ++ " find term(s), " ++
        toString (document.clauses.getD []).length ++ " clause(s)")
  · rw [ht]
    rfl
  · rw [hdocument]
    rfl

/-! ### Requests -/

/-- Have an exchange, and write the answer. -/
def asking (e : Exchange Json) : Errand Unit := do
  let body ← answer e
  print body.indented

/-- Make a client, and have an exchange with it. -/
def posting (s : Settings) (e : Client → Exchange Json) : Errand Unit := do
  let c ← client s
  asking (e c)

theorem runRun_eq (s : Settings) (file : String) (args : Option String) (skip : Bool) :
    runRun s file args skip =
      prepared file args skip >>= fun document => posting s (Client.submit · document) := by
  cases skip <;> simp [runRun, prepared, checkedUnless, posting, asking]

theorem runTranslate_eq (s : Settings) (file : String) :
    runTranslate s file =
      checkedDocument file >>= fun document => posting s (Client.translate · document) := rfl

/-- The exchange is the first thing, and then its answer is written or told as trouble. -/
theorem course_asking (e : Exchange Json) (scene : Scene) :
    (asking e).course scene =
      (match e.read scene.answer.1 with
        | .ok body => ⟨[.wrote .output (body.indented ++ "\n")], .ok (), scene.answer.2⟩
        | .error error =>
          ⟨[], .error (.ofReport (.ofFailure (.ofSubmit error))), scene.answer.2⟩ :
        Course (Except Trouble Unit)).following [.exchanged e.request scene.answer.1] := by
  have hanswer : (answer e).course scene =
      ⟨[.exchanged e.request scene.answer.1],
        ((e.read scene.answer.1).mapError fun error => .ofFailure (.ofSubmit error)).mapError
          .ofReport,
        scene.answer.2⟩ := rfl
  unfold asking
  rw [Errand.course_bind, hanswer]
  cases e.read scene.answer.1 <;> rfl

/-- Once there is a document there is trouble if a header cannot be sent, and else it is posted. -/
theorem course_posting (s : Settings) (e : Client → Exchange Json) (scene : Scene) :
    (¬ s.Sendable ∧ ∃ t, (posting s e).course scene = ⟨[], .error t, scene⟩) ∨
      ∃ c, Client.ofSettings s = .ok c ∧
        (posting s e).course scene = (asking (e c)).course scene := by
  rw [← Client.exists_ofSettings_iff, not_exists]
  exact (comesTo_ofExcept _ (Client.ofSettings s) scene).course_bind _

end Command

/-! ### Invocations -/

namespace Invocation

/-- The invocation has a document to post to the address: its settings and headers can be used,
and the document of its command is accepted. -/
def Posts (i : Invocation) (scene : Scene) (url : String) (document : Document) : Prop :=
  ∃ s, i.Configured scene s ∧ s.Sendable ∧
    match i.command with
    | .run file args skip =>
      url = s.submitQueryEndpoint ∧ Command.Accepts scene file args skip document
    | .translate file =>
      url = s.translateQueryEndpoint ∧ Command.Accepts scene file none false document
    | _ => False

/-- The errand of the invocation, from the settings on. -/
def errand (i : Invocation) : Errand Unit := i.settings >>= fun s => i.command.errand s

/-- An invocation ends well unless its errand is in trouble, which is told as an error. -/
theorem course_dialogue (i : Invocation) (scene : Scene) :
    i.dialogue.course scene =
      (match (i.errand.course scene).result with
        | .ok () => ⟨[], .success, (i.errand.course scene).after⟩
        | .error t =>
          ⟨[.wrote .errors (t.shown ++ "\n")], .failure, (i.errand.course scene).after⟩ :
        Course Status).following (i.errand.course scene).events := by
  unfold dialogue
  rw [Dialogue.course_bind]
  change (Dialogue.course (match (i.errand.course scene).result with
    | .ok () => _
    | .error t => _) (i.errand.course scene).after).following (i.errand.course scene).events = _
  cases (i.errand.course scene).result <;> rfl

/-- What an invocation hands over is what its errand does. -/
theorem handed_course_dialogue (i : Invocation) (scene : Scene) :
    (i.dialogue.course scene).handed = (i.errand.course scene).handed := by
  rw [course_dialogue, Course.handed_following]
  cases (i.errand.course scene).result <;> exact List.append_nil _

/-- An errand that prepares a document and posts it does nothing but end in trouble, or it posts
the document. -/
theorem course_preparing {i : Invocation} {scene : Scene} {preparing : Errand Document}
    {accepts : Document → Prop} (h : preparing.ComesTo scene accepts)
    (e : Client → Document → Exchange Json) :
    let errand := i.settings >>= fun s => preparing >>= fun document =>
      Command.posting s (e · document)
    ((∀ s document, i.Configured scene s → s.Sendable → ¬ accepts document) ∧
        ∃ t, errand.course scene = ⟨[], .error t, scene⟩) ∨
      ∃ s document c, i.Configured scene s ∧ accepts document ∧ Client.ofSettings s = .ok c ∧
        errand.course scene = (Command.asking (e c document)).course scene := by
  intro errand
  -- Settings, document and client are had one after the other, and each may be the last.
  obtain ⟨hnone, htrouble⟩ | ⟨s, hs, hcourse⟩ := (i.comesTo_settings scene).course_bind fun s =>
    preparing >>= fun document => Command.posting s (e · document)
  · exact .inl ⟨fun s _ hs => (hnone s hs).elim, htrouble⟩
  obtain ⟨hnone, t, ht⟩ | ⟨document, hdocument, hcourse'⟩ := h.course_bind fun document =>
    Command.posting s (e · document)
  · exact .inl ⟨fun _ document _ _ => hnone document, t, hcourse.trans ht⟩
  obtain ⟨hheaders, t, ht⟩ | ⟨c, hc, hposting⟩ := Command.course_posting s (e · document) scene
  · -- The headers that cannot be sent are those of the only settings there are.
    refine .inl ⟨fun s' _ hs' hheaders' => ?_, t, hcourse.trans (hcourse'.trans ht)⟩
    obtain rfl := (i.comesTo_settings scene).unique hs hs'
    exact (hheaders hheaders').elim
  · exact .inr ⟨s, document, c, hs, hdocument, hc, hcourse.trans (hcourse'.trans hposting)⟩

/-- The course of an invocation that is to post a document: one request is handed over if there is
a document to post, and none else; and without an answer that can be read the invocation fails and
writes no output. -/
structure HandsOver (i : Invocation) (scene : Scene) (course : Course Status) : Prop where
  atMostOne : course.handed.length ≤ 1
  posts : ∀ url document, i.Posts scene url document → ∃ request,
    course.handed = [(request, scene.answer.1)] ∧ request.method = .post ∧ request.url = url ∧
      request.body = document.text
  idle : (∀ url document, ¬ i.Posts scene url document) → course.handed = []
  fails : (course.handed = [] ∨ ∃ request outcome error, (request, outcome) ∈ course.handed ∧
      Client.readBody request.url outcome = .error error) →
    course.result = .failure ∧ course.output = ""

/-- An invocation that is in trouble before it could post anything. -/
theorem handsOver_of_error {i : Invocation} {scene : Scene} {t : Trouble}
    (hposts : ∀ url document, ¬ i.Posts scene url document)
    (h : i.errand.course scene = ⟨[], .error t, scene⟩) :
    i.HandsOver scene (i.dialogue.course scene) := by
  rw [course_dialogue, h]
  exact
    { atMostOne := Nat.zero_le 1
      posts := fun url document hd => (hposts url document hd).elim
      idle := fun _ => rfl
      fails := fun _ => ⟨rfl, rfl⟩ }

/-- An invocation that posts its document. -/
theorem handsOver_of_answer {i : Invocation} {scene : Scene} {c : Client} {url : String}
    {document : Document}
    (hposts : ∀ url' document', i.Posts scene url' document' ↔ url' = url ∧ document' = document)
    (h : i.errand.course scene = (Command.asking (c.post url document)).course scene) :
    i.HandsOver scene (i.dialogue.course scene) := by
  -- Whatever becomes of the request, it has been handed over.
  have hhanded : (i.dialogue.course scene).handed =
      [((c.post url document).request, scene.answer.1)] := by
    rw [course_dialogue, h, Command.course_asking]
    cases (c.post url document).read scene.answer.1 <;> rfl
  refine ⟨by rw [hhanded]; exact Nat.le_refl 1, ?_, ?_, ?_⟩
  · rintro url' document' hd
    obtain ⟨rfl, rfl⟩ := (hposts _ _).mp hd
    exact ⟨_, hhanded, rfl, rfl, rfl⟩
  · exact fun hno => (hno url document ((hposts _ _).mpr ⟨rfl, rfl⟩)).elim
  · rintro (hnone | ⟨request, outcome, error, hmem, herror⟩)
    · exact absurd (hhanded.symm.trans hnone) (List.cons_ne_nil _ _)
    · obtain ⟨rfl, rfl⟩ := Prod.mk.inj (List.mem_singleton.mp (hhanded ▸ hmem))
      rw [course_dialogue, h, Command.course_asking,
        show (c.post url document).read scene.answer.1 = .error error from herror]
      exact ⟨rfl, rfl⟩

/-- An invocation that prepares a document and then posts it. -/
theorem handsOver_of_preparing {i : Invocation} {scene : Scene} {preparing : Errand Document}
    {accepts : Document → Prop} (address : Settings → String)
    (h : preparing.ComesTo scene accepts)
    (hposts : ∀ url document, i.Posts scene url document ↔
      ∃ s, i.Configured scene s ∧ s.Sendable ∧ url = address s ∧ accepts document)
    (herrand : i.errand = i.settings >>= fun s => preparing >>= fun document =>
      Command.posting s fun c => c.post (address c.settings) document) :
    i.HandsOver scene (i.dialogue.course scene) := by
  obtain ⟨hnone, t, ht⟩ | ⟨s, document, c, hs, hdocument, hc, hanswer⟩ :=
    course_preparing h fun c document => c.post (address c.settings) document
  · refine handsOver_of_error (fun url document hd => ?_) (herrand ▸ ht)
    obtain ⟨s, hs, hheaders, -, hdocument⟩ := (hposts url document).mp hd
    exact hnone s document hs hheaders hdocument
  · refine handsOver_of_answer (fun url' document' => ?_) (herrand ▸ hanswer)
    rw [hposts, Client.settings_of_ofSettings hc]
    constructor
    · rintro ⟨s', hs', -, rfl, hdocument'⟩
      obtain rfl := (i.comesTo_settings scene).unique hs hs'
      exact ⟨rfl, h.unique hdocument' hdocument⟩
    · rintro ⟨rfl, rfl⟩
      exact ⟨s, hs, (Client.exists_ofSettings_iff s).mp ⟨c, hc⟩, rfl, hdocument⟩

end Invocation

/-- A command line that is to post a document hands one request over, to the right address and with
the wire text of the document, exactly when settings, headers and document are as they should be;
one that is to check a document hands nothing over. -/
theorem program_posts {around : Surroundings} {arguments : List String} {i : Invocation}
    (h : Invocation.ofArguments around arguments = .ok i) (scene : Scene) :
    let course := (program around arguments).course scene
    match i.command with
    | .validate _ => course.handed = []
    | .run _ _ _ | .translate _ => i.HandsOver scene course
    | _ => True := by
  intro course
  have hcourse : course = i.dialogue.course scene := by
    simp only [course, program, h]
  rw [hcourse]
  cases hi : i.command with
  | validate file =>
    have herrand : i.errand = i.settings >>= fun _ => Command.runValidate file := by
      simp only [Invocation.errand, hi, Command.errand]
    rw [Invocation.handed_course_dialogue, herrand]
    obtain ⟨-, t, ht⟩ | ⟨s, -, hs⟩ := (i.comesTo_settings scene).course_bind fun _ =>
      Command.runValidate file
    · rw [ht]
      rfl
    · rw [hs, Command.handed_runValidate]
  | run file args skip =>
    refine Invocation.handsOver_of_preparing Settings.submitQueryEndpoint
      (Command.comesTo_prepared file args skip scene) (fun url document => ?_) ?_
    · simp only [Invocation.Posts, hi]
    · simp only [Invocation.errand, hi, Command.errand, Command.runRun_eq, Client.submit]
  | translate file =>
    refine Invocation.handsOver_of_preparing Settings.translateQueryEndpoint
      (Command.comesTo_checkedDocument file scene) (fun url document => ?_) ?_
    · simp only [Invocation.Posts, hi]
    · simp only [Invocation.errand, hi, Command.errand, Command.runTranslate_eq, Client.translate]
  | _ => trivial

/-- A world with the file of one question, where a server answers with an error. -/
def unwillingServer : Scene where
  source
    | .file "q.json" => .bytes "\x7b\"find\":[\"?e\"]\x7d".toUTF8
    | _ => .missing
  script := [.answered 200 "\x7b\"error\":\"no\"\x7d"]

theorem Document.ofText_question :
    Document.ofText "\x7b\"find\":[\"?e\"]\x7d" = .ok { find := [.var "?e"] } := by
  have hfloat : ({ find := [.var "?e"] } : Document).Floatless :=
    ⟨by simp [FindTerm.EveryLiteral], by simp, by simp⟩
  have hcanonical : ({ find := [.var "?e"] } : Document).Canonical Value.marksKind :=
    ⟨by simp [FindTerm.Canonical]; decide, by simp, by simp, by simp⟩
  have htext : ({ find := [.var "?e"] } : Document).text = "\x7b\"find\":[\"?e\"]\x7d" := rfl
  rw [← htext]
  exact ofText_text_of_nesting_le hfloat hcanonical (by decide)

theorem Client.readBody_complaint (url : String) :
    readBody url (.answered 200 "\x7b\"error\":\"no\"\x7d") =
      .error (.server (.obj [("error", .str "no")])) := by
  have htext : Json.ofText "\x7b\"error\":\"no\"\x7d" = .ok (.obj [("error", .str "no")]) :=
    Json.ofText_compact (j := .obj [("error", .str "no")]) (by simp) (by decide) (by simp)
  simp only [readBody, Http.Outcome.answer, htext]
  rfl

/-- The question is posted once, and then the program fails without output. -/
theorem refusedQuestion_posted :
    Invocation.ofArguments {} ["run", "q.json"] = .ok { command := .run "q.json" none false } ∧
      ∃ request, ((program {} ["run", "q.json"]).course unwillingServer).handed =
          [(request, .answered 200 "\x7b\"error\":\"no\"\x7d")] ∧
        request.url = "http://localhost:8080/api/datomic/query" ∧
        request.body = "\x7b\"find\":[\"?e\"]\x7d" ∧
        ((program {} ["run", "q.json"]).course unwillingServer).result = .failure ∧
        ((program {} ["run", "q.json"]).course unwillingServer).output = "" := by
  have hposts : ({ command := .run "q.json" none false } : Invocation).Posts unwillingServer
      "http://localhost:8080/api/datomic/query" { find := [.var "?e"] } :=
    ⟨.default, ⟨⟨.default, rfl, rfl⟩, rfl⟩, nofun, rfl,
      "\x7b\"find\":[\"?e\"]\x7d", _, Source.text_toUTF8 _, Document.ofText_question, rfl, .inr rfl⟩
  have hhands := @program_posts {} ["run", "q.json"] _ rfl unwillingServer
  obtain ⟨request, hhanded, -, hurl, hbody⟩ := hhands.posts _ _ hposts
  have hfails := hhands.fails (.inr ⟨request, _, _, hhanded ▸ List.mem_singleton_self _,
    Client.readBody_complaint request.url⟩)
  exact ⟨rfl, request, hhanded, hurl, hbody, hfails⟩

end DatalogClient
