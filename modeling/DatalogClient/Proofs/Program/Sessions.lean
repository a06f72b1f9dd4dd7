import DatalogClient.Program.Run
import DatalogClient.Proofs.Program.Course
import DatalogClient.Proofs.Program.Posting

/-!
# Sessions of the shell

A session takes one line after another until a line asks to quit. A line that asks for a document
to be submitted or translated has one exchange if the document passes, and no other line has any;
whatever becomes of a line, the next one is taken. So what a session does is what its lines do, one
after another, and a session may be cut between any two lines.

## Main definitions

* `Shell.input`, `Scene.typing` — lines of text as the shell is given them
* `ShellLine.posts?` — the request that a line asks for

## Main results

* `Shell.lines_input` — the lines are found again in the input
* `Shell.handed_obey` — what one line hands over
* `Shell.course_session_cons`, `Shell.course_session_append` — a session, line by line and in parts
* `Command.sessions_post` — the requests of whole sessions, and sessions one after the other
-/

namespace DatalogClient

/-! ### Lines of text -/

namespace Shell

theorem toList_loop (bytes : ByteArray) (i : Nat) (before : List UInt8) :
    ByteArray.toList.loop bytes i before = before.reverse ++ bytes.data.toList.drop i := by
  fun_induction ByteArray.toList.loop bytes i before with
  | case1 i before h ih =>
    have hi : i < bytes.data.toList.length := by simpa using h
    rw [ih, List.drop_eq_getElem_cons hi]
    simp [ByteArray.get!, h]
  | case2 i before h =>
    rw [List.drop_eq_nil_of_le (by simpa using Nat.le_of_not_lt h), List.append_nil]

theorem toList_eq (bytes : ByteArray) : bytes.toList = bytes.data.toList := toList_loop bytes 0 []

/-- The bytes of a line of text. -/
def typed (text : String) : List UInt8 := text.toUTF8.toList

/-- The input that holds the lines. -/
def input (texts : List String) : ByteArray :=
  ⟨(texts.flatMap fun text => typed text ++ [10]).toArray⟩

/-- The byte that ends a line is part of no other character. -/
theorem ten_mem_utf8EncodeChar {c : Char} (h : 10 ∈ String.utf8EncodeChar c) : c = '\n' := by
  suffices c.val.toNat = 10 from Char.ext (UInt32.toNat_inj.mp this)
  simp only [String.utf8EncodeChar] at h
  -- All bytes of a character of several bytes are above 127.
  repeat' split at h
  all_goals
    simp only [List.mem_cons, List.not_mem_nil, or_false, ← UInt8.toNat_inj, UInt8.toNat_ofNat',
      UInt8.reduceToNat] at h
    omega

/-- The bytes of a text are those of its characters. -/
theorem typed_eq (text : String) : typed text = text.toList.flatMap String.utf8EncodeChar := by
  rw [typed, toList_eq, String.toUTF8_eq_toByteArray, ← String.utf8Encode_toList, List.utf8Encode,
    List.toList_data_toByteArray]

theorem ten_notMem_typed {text : String} (h : '\n' ∉ text.toList) : 10 ∉ typed text := by
  rw [typed_eq, List.mem_flatMap]
  rintro ⟨c, hc, hten⟩
  exact h (ten_mem_utf8EncodeChar hten ▸ hc)

theorem fromUTF8?_typed (text : String) : String.fromUTF8? ⟨(typed text).toArray⟩ = some text := by
  have hbytes : (⟨(typed text).toArray⟩ : ByteArray) = text.toByteArray := by
    rw [typed, toList_eq]
    rfl
  rw [hbytes, String.fromUTF8?, dif_pos text.isValidUTF8]
  rfl

/-- Up to the byte that ends it, a line is one of the input. -/
theorem lines_append {line : List UInt8} (h : 10 ∉ line) (rest : List UInt8) :
    lines (line ++ 10 :: rest) = line :: lines rest := by
  induction line with
  | nil => simp [lines]
  | cons byte line ih =>
    obtain ⟨hbyte, hline⟩ := not_or.mp (mt List.mem_cons.mpr h)
    simp only [List.cons_append, lines, if_neg (Ne.symm hbyte), ih hline]

/-- The lines are found again in the input. -/
theorem lines_input {texts : List String} (h : ∀ text ∈ texts, '\n' ∉ text.toList) :
    lines (input texts).toList = texts.map typed := by
  rw [toList_eq, input]
  induction texts with
  | nil => rfl
  | cons text rest ih =>
    obtain ⟨htext, hrest⟩ := List.forall_mem_cons.mp h
    simpa [lines_append (ten_notMem_typed htext)] using ih hrest

end Shell

/-- The world in which the lines are typed. -/
def Scene.typing (texts : List String) (scene : Scene) : Scene where
  source
    | .input => .bytes (Shell.input texts)
    | name => scene.source name
  script := scene.script

/-! ### Requests -/

/-- The address and the document of the request that a line asks for, if the document passes. -/
def ShellLine.posts? (s : Settings) : ShellLine → Option (String × Document)
  | .submit json => (Document.checkText json).toOption.map (s.submitQueryEndpoint, ·)
  | .translate json => (Document.checkText json).toOption.map (s.translateQueryEndpoint, ·)
  | _ => none

/-- Method, address and body of a request that was handed over. -/
def Http.Request.essence (r : Http.Request) : Http.Method × String × String :=
  (r.method, r.url, r.body)

namespace Shell

open Errand

/-! ### One line -/

theorem readsNothing_ask (e : Document → Exchange Json) (json : String) :
    (ask e json).ReadsNothing := by
  unfold ask
  cases Document.checkText json with
  | error err => exact Dialogue.readsNothing_line _ _
  | ok document =>
    refine Dialogue.ReadsNothing.bind (.send fun _ => .done _) fun answer => ?_
    cases answer <;> exact Dialogue.readsNothing_line _ _

/-- No line asks for anything to be read. -/
theorem readsNothing_obey (c : Client) (line : ShellLine) : (obey c line).ReadsNothing := by
  have hline (channel : Channel) (text : String) :
      (Dialogue.line channel text >>= fun _ => pure true).ReadsNothing :=
    (Dialogue.readsNothing_line channel text).bind fun _ => .done true
  cases line with
  | blank => exact .done true
  | quit => exact .done false
  | help | unknown name => exact hline _ _
  | validate json => cases h : Document.checkText json <;> simp only [obey, h] <;> exact hline _ _
  | translate json | submit json => exact (readsNothing_ask _ _).bind fun _ => .done true

/-- Only a line that asks to quit ends the session. -/
theorem result_obey (c : Client) (line : ShellLine) (scene : Scene) :
    ((obey c line).course scene).result = decide (line ≠ .quit) := by
  cases line with
  | blank | quit | help | unknown name => rfl
  | validate json => cases h : Document.checkText json <;> simp only [obey, h] <;> rfl
  | translate json | submit json =>
    rw [obey, Dialogue.course_bind]
    rfl

/-- A document that passes is handed over once. -/
theorem handed_ask (e : Document → Exchange Json) (json : String) (scene : Scene) :
    ((ask e json).course scene).handed =
      (Document.checkText json).toOption.toList.map fun document =>
        ((e document).request, scene.answer.1) := by
  cases hchecked : Document.checkText json with
  | error err =>
    simp only [ask, hchecked]
    rfl
  | ok document =>
    simp only [ask, hchecked]
    rw [Dialogue.course_bind, Course.handed_following]
    -- What comes of the exchange is only told.
    cases ((exchange (e document)).course scene).result <;> rfl

/-- What one line hands over. -/
theorem handed_obey (c : Client) (line : ShellLine) (scene : Scene) :
    ((obey c line).course scene).handed.map (·.1.essence) =
      (line.posts? c.settings).toList.map fun (url, document) => (.post, url, document.text) := by
  cases line with
  | blank | quit | help | unknown name => rfl
  | validate json => cases h : Document.checkText json <;> simp only [obey, h] <;> rfl
  | translate json | submit json =>
    rw [obey, Dialogue.course_bind, Course.handed_following]
    -- After the exchange a line is through.
    change ((((ask _ json).course scene).handed ++ []).map _) = _
    rw [List.append_nil, handed_ask, ShellLine.posts?]
    cases Document.checkText json <;> rfl

/-! ### Sessions -/

/-- A session takes the first line, and then the others if it is to go on. -/
theorem session_cons (c : Client) (text : String) (rest : List String) :
    session c ((text :: rest).map typed) =
      ExceptT.lift (obey c (.ofText text)) >>= fun goOn =>
        if goOn then session c (rest.map typed) else pure () := by
  simp only [List.map_cons, session, fromUTF8?_typed]
  rfl

theorem readsNothing_session (c : Client) (texts : List String) :
    (session c (texts.map typed)).run.ReadsNothing := by
  induction texts with
  | nil => exact .done _
  | cons text rest ih =>
    rw [session_cons]
    refine Errand.readsNothing_lift_bind (readsNothing_obey c _) fun goOn => ?_
    cases goOn with
    | false => exact .done _
    | true => exact ih

/-- The course of a session is that of its first line, and then, unless that asks to quit, the
course of a session with the others. -/
theorem course_session_cons (c : Client) (text : String) (rest : List String) (scene : Scene) :
    let line := (obey c (.ofText text)).course scene
    (session c ((text :: rest).map typed)).course scene =
      (if ShellLine.ofText text = .quit then ⟨[], .ok (), line.after⟩
        else (session c (rest.map typed)).course line.after).following line.events := by
  intro line
  rw [session_cons, Errand.course_lift_bind, result_obey]
  by_cases hquit : ShellLine.ofText text = .quit
  · rw [if_pos hquit, decide_eq_false (not_not_intro hquit), if_neg Bool.false_ne_true,
      Errand.course_pure]
  · rw [if_neg hquit, decide_eq_true hquit, if_pos rfl]

/-- No line of text ends a session in trouble. -/
theorem result_session (c : Client) (texts : List String) (scene : Scene) :
    ((session c (texts.map typed)).course scene).result = .ok () := by
  induction texts generalizing scene with
  | nil => rfl
  | cons text rest ih =>
    rw [course_session_cons, Course.result_following]
    split
    · rfl
    · exact ih _

/-- A session hands over what its lines ask for, up to the one that asks to quit. -/
theorem handed_session (c : Client) (texts : List String) (scene : Scene) :
    ((session c (texts.map typed)).course scene).handed.map (·.1.essence) =
      (((texts.map ShellLine.ofText).takeWhile (· ≠ .quit)).filterMap
        (ShellLine.posts? c.settings)).map fun (url, document) => (.post, url, document.text) := by
  induction texts generalizing scene with
  | nil => rfl
  | cons text rest ih =>
    rw [course_session_cons, Course.handed_following, List.map_append, List.map_cons,
      List.takeWhile_cons]
    change ((obey c (.ofText text)).course scene).handed.map _ ++ _ = _
    rw [handed_obey]
    -- A line that asks to quit is the last to be taken, and asks for nothing else.
    by_cases hquit : ShellLine.ofText text = .quit
    · rw [if_pos hquit, hquit]
      rfl
    · rw [if_neg hquit, ih, if_pos (decide_eq_true hquit)]
      cases hposts : (ShellLine.ofText text).posts? c.settings <;> simp [hposts]

/-- A session with more lines goes on where a session with the first ones was. -/
theorem course_session_append (c : Client) {first : List String} (second : List String)
    (scene : Scene) (h : ∀ text ∈ first, ShellLine.ofText text ≠ .quit) :
    (session c ((first ++ second).map typed)).course scene =
      ((session c (second.map typed)).course
        ((session c (first.map typed)).course scene).after).following
        ((session c (first.map typed)).course scene).events := by
  induction first generalizing scene with
  | nil => rfl
  | cons text rest ih =>
    obtain ⟨htext, hrest⟩ := List.forall_mem_cons.mp h
    -- The first line leads both sessions to the same world, and neither ends there.
    rw [List.cons_append, course_session_cons, course_session_cons, if_neg htext, if_neg htext,
      ih _ hrest, Course.following_following, Course.after_following, Course.events_following]

end Shell

/-! ### The command -/

namespace Command

/-- What the shell writes at its beginning. -/
def greeting (s : Settings) : Event :=
  .wrote .output ("connected to " ++ s.apiUrl ++ " (:help for commands)" ++ "\n")

/-- The command greets, and then holds a session with the lines that are typed. -/
theorem course_shell {s : Settings} {c : Client} (hc : Client.ofSettings s = .ok c)
    {texts : List String} (htexts : ∀ text ∈ texts, '\n' ∉ text.toList) (scene : Scene) :
    (shell.errand s).course (scene.typing texts) =
      ((Shell.session c (texts.map Shell.typed)).course (scene.typing texts)).following
        [greeting s] := by
  have hlines : Shell.lines (Shell.input texts).toList = texts.map Shell.typed :=
    Shell.lines_input htexts
  change (runShell s).course _ = _
  unfold runShell client
  rw [hc, ← hlines]
  rfl

/-- What the shell hands over is what its lines ask for, in order, up to the line that asks to
quit; no line ends it in trouble; and the shell may be left between two lines and started again
for the others, with the same requests and the same output but for a second greeting. -/
theorem sessions_post {s : Settings} {c : Client} (hc : Client.ofSettings s = .ok c) :
    (∀ (texts : List String) (scene : Scene), (∀ text ∈ texts, '\n' ∉ text.toList) →
      let course := (shell.errand s).course (scene.typing texts)
      course.result = .ok () ∧
      course.handed.map (·.1.essence) =
        (((texts.map ShellLine.ofText).takeWhile (· ≠ .quit)).filterMap
          (ShellLine.posts? s)).map fun (url, document) => (.post, url, document.text)) ∧
    ∀ (first second : List String) (scene : Scene),
      (∀ text ∈ first ++ second, '\n' ∉ text.toList) →
      (∀ text ∈ first, ShellLine.ofText text ≠ .quit) →
      let before := (shell.errand s).course (scene.typing first)
      let after := (shell.errand s).course (before.after.typing second)
      let whole := (shell.errand s).course (scene.typing (first ++ second))
      ∃ events events', before.events = greeting s :: events ∧
        after.events = greeting s :: events' ∧ whole.events = greeting s :: (events ++ events') ∧
        whole.result = after.result ∧ whole.after.script = after.after.script := by
  have hs := Client.settings_of_ofSettings hc
  refine ⟨fun texts scene htexts => ?_, fun first second scene htexts hquit => ?_⟩
  · intro course
    have hcourse : course = _ := course_shell hc htexts scene
    rw [hcourse]
    exact ⟨Shell.result_session c texts _, hs ▸ Shell.handed_session c texts _⟩
  · intro before after whole
    obtain ⟨hfirst, hsecond⟩ := List.forall_mem_append.mp htexts
    have hbefore : before = _ := course_shell hc hfirst scene
    have hafter : after = _ := course_shell hc hsecond before.after
    have hwhole : whole = _ := course_shell hc htexts scene
    rw [Shell.course_session_append c second _ hquit] at hwhole
    -- A session does not see the lines that come after it, nor those that came before.
    obtain ⟨hevents, -, hscript⟩ := (Shell.readsNothing_session c first).course_congr
      (show (scene.typing first).script = (scene.typing (first ++ second)).script from rfl)
    obtain ⟨hevents', hresult', hscript'⟩ := (Shell.readsNothing_session c second).course_congr
      (show (before.after.typing second).script = _ from
        (congrArg (·.after.script) hbefore).trans hscript)
    refine ⟨_, _, congrArg Course.events hbefore, congrArg Course.events hafter, ?_, ?_, ?_⟩
    · rw [hwhole]
      exact congrArg (greeting s :: ·) (congr (congrArg _ hevents) hevents').symm
    · rw [hwhole, hafter]
      exact hresult'.symm
    · rw [hwhole, hafter]
      exact hscript'.symm

/-- Lines about one question: it is checked, and submitted twice, once with a slip. -/
def askingLines : List String :=
  [":v \x7b\"find\":[\"?e\"]\x7d", "\x7b\"find\":[\"?e\"]", "  \x7b\"find\":[\"?e\"]\x7d  "]

/-- Lines that have the question translated, and ask for it again after the session. -/
def leavingLines : List String :=
  [":drop", ":t \x7b\"find\":[\"?e\"]\x7d", ":q", "\x7b\"find\":[\"?e\"]\x7d"]

/-- What the lines ask for, up to the line that asks to quit. -/
theorem asked_before_quit :
    ((askingLines ++ leavingLines).map ShellLine.ofText).takeWhile (· ≠ .quit) =
      [.validate "\x7b\"find\":[\"?e\"]\x7d", .submit "\x7b\"find\":[\"?e\"]",
        .submit "\x7b\"find\":[\"?e\"]\x7d", .unknown "drop",
        .translate "\x7b\"find\":[\"?e\"]\x7d"] := by
  decide +kernel

theorem checkText_question :
    Document.checkText "\x7b\"find\":[\"?e\"]\x7d" = .ok { find := [.var "?e"] } :=
  Document.checkText_eq_ok_iff.mpr ⟨Document.ofText_question, rfl⟩

/-- The question without the brace that ends it does not pass. -/
theorem toOption_checkText_slip :
    (Document.checkText "\x7b\"find\":[\"?e\"]").toOption = none :=
  Option.isNone_iff_eq_none.mp (by decide +kernel)

/-- Two of the lines ask for a request. -/
theorem filterMap_posts?_asked :
    (((askingLines ++ leavingLines).map ShellLine.ofText).takeWhile (· ≠ .quit)).filterMap
        (ShellLine.posts? .default) =
      [(Settings.default.submitQueryEndpoint, { find := [.var "?e"] }),
        (Settings.default.translateQueryEndpoint, { find := [.var "?e"] })] := by
  rw [asked_before_quit]
  simp only [List.filterMap_cons, List.filterMap_nil, ShellLine.posts?, checkText_question,
    toOption_checkText_slip, Option.map_none]
  rfl

/-- One request is sent with the first lines and one with the others, though nobody answers. -/
theorem questionLines_posted :
    let scene : Scene := { source := fun _ => .missing, script := [.timedOut, .closed] }
    Client.ofSettings .default = .ok ⟨.default, []⟩ ∧
      ((shell.errand .default).course
          (scene.typing (askingLines ++ leavingLines))).handed.map (·.1.essence) =
        [(.post, "http://localhost:8080/api/datomic/query", "\x7b\"find\":[\"?e\"]\x7d"),
          (.post, "http://localhost:8080/api/datomic/translate-query",
            "\x7b\"find\":[\"?e\"]\x7d")] ∧
      ∃ events events',
        ((shell.errand .default).course (scene.typing askingLines)).events =
          greeting .default :: events ∧
        ((shell.errand .default).course (scene.typing (askingLines ++ leavingLines))).events =
          greeting .default :: (events ++ events') := by
  intro scene
  have hposts := @sessions_post .default ⟨.default, []⟩ rfl
  obtain ⟨events, events', hbefore, -, hwhole, -⟩ :=
    hposts.2 askingLines leavingLines scene (by decide) (by decide)
  have hhanded := (hposts.1 (askingLines ++ leavingLines) scene (by decide)).2
  rw [filterMap_posts?_asked] at hhanded
  exact ⟨rfl, hhanded, events, events', hbefore, hwhole⟩

end Command

end DatalogClient
