import DatalogClient.Proofs.Client.Judgement
import DatalogClient.Proofs.Program.Course
import DatalogClient.Proofs.Schema.Envelope

/-!
# What comes of a call

A call of a client makes one request and does nothing else. What comes of it is told by the status,
the text and the body of the answer, in this order: the status is looked at first, then whether the
text is JSON, then whether the body reports an error, and only then whether the body is what was
asked for. Nothing of a body that is given is changed on the way.

## Main definitions

* `Json.CountsAsFalse` — null, false, zero and the empty text
* `Json.HoldsError` — an object with an `error` that is none of these
* `Client.Call.Gives` — a body is what the call is to give

## Main results

* `Json.reportsError_iff` — a body reports an error if it holds one
* `Client.Call.taken_eq_ok_iff` — what a call takes from a body is what the body gives
* `Client.Call.one_request_and_its_result` — what a call does, and when it ends in which way
-/

namespace DatalogClient

/-! ### Bodies -/

namespace Json

/-- The value is null, false, zero or the empty text. -/
inductive CountsAsFalse : Json → Prop
  | null : CountsAsFalse .null
  | false : CountsAsFalse (.bool false)
  | empty : CountsAsFalse (.str "")
  | zero : CountsAsFalse (.num (.int 0))
  /-- Floating-point numbers have two zeros. -/
  | zeroFloat {x : Float} (h : (x == 0) = true) : CountsAsFalse (.num (.float x))

theorem isTruthy_eq_false_iff (j : Json) : isTruthy j = false ↔ j.CountsAsFalse := by
  constructor
  · intro h
    match j with
    | .null => exact .null
    | .bool false => exact .false
    | .str s =>
      obtain rfl : s = "" := by simpa [isTruthy] using h
      exact .empty
    | .num (.int n) =>
      obtain rfl : n = 0 := by simpa [isTruthy] using h
      exact .zero
    | .num (.float x) => exact .zeroFloat (by simpa [isTruthy, bne] using h)
  · intro h
    cases h with
    | null | false | empty | zero => rfl
    | zeroFloat h => simp [isTruthy, bne, h]

/-- The body is an object with an `error` that does not count as false. -/
def HoldsError (body : Json) : Prop :=
  ∃ members error, body = .obj members ∧ lookup "error" members = some error ∧
    ¬ error.CountsAsFalse

/-- The bodies that report an error are those that hold one. -/
theorem reportsError_iff (body : Json) : body.ReportsError ↔ body.HoldsError := by
  simp only [HoldsError, ← isTruthy_eq_false_iff, Bool.not_eq_false]
  constructor
  · rintro ⟨error, hmember, htrue⟩
    cases body with
    | obj members => exact ⟨members, error, rfl, hmember, htrue⟩
    | _ => cases hmember
  · rintro ⟨members, error, rfl, hmember, htrue⟩
    exact ⟨error, hmember, htrue⟩

/-- What is read from a text repeats no name. -/
theorem distinct_of_ofText {text : String} {body : Json} (h : ofText text = .ok body) :
    body.Distinct := by
  have hcollapsed : ∃ whole : Json, body = whole.collapse := by
    rw [ofText, decodeText, anything] at h
    cases hwhole : whole (LocatedText.ofText nestingLimit text).root with
    | error problem => simp [hwhole, Except.map] at h
    | ok j =>
      cases hsurplus : (LocatedText.ofText nestingLimit text).surplus with
      | some fault => simp [hwhole, hsurplus, Except.map] at h
      | none => exact ⟨j, by simpa [hwhole, hsurplus, Except.map, eq_comm] using h⟩
  obtain ⟨j, rfl⟩ := hcollapsed
  exact j.distinct_collapse

end Json

namespace Client

theorem isSuccess_iff {status : Nat} : isSuccess status = true ↔ 200 ≤ status ∧ status < 300 := by
  simp [isSuccess]

namespace Call

/-- The body is what the call is to give: anything, or the envelope of the list that is wanted. -/
def Gives : (call : Call) → Json → call.Result → Prop
  | submit _, body, result => result = body
  | translate _, body, result => result = body
  | fetchSchema, body, entries => body.Encloses SchemaEntry.decode entries
  | fetchEntityShapes, body, shapes => body.Encloses EntityShape.decode shapes

theorem enclosed_eq_ok_iff {α : Type} {item : Decoder α} {body : Json} (hbody : body.Distinct)
    {values : List α} : enclosed item body = .ok values ↔ body.Encloses item values := by
  rw [← Envelope.reads_iff hbody, Json.Reads, enclosed]
  cases Envelope.decode item (.ofJson body) with
  | error problem => simp [Except.map]
  | ok envelope =>
    obtain ⟨data⟩ := envelope
    simp [Except.map]

/-- What a call takes from a body is what the body gives. -/
theorem taken_eq_ok_iff (call : Call) {body : Json} (hbody : body.Distinct)
    {result : call.Result} : call.taken body = .ok result ↔ call.Gives body result := by
  cases call with
  | submit document | translate document =>
    exact ⟨fun h => (Except.ok.inj h).symm, fun h => congrArg _ h.symm⟩
  | fetchSchema | fetchEntityShapes => exact enclosed_eq_ok_iff hbody

/-! ### Ways to end -/

variable {c : Client} {call : Call} {outcome : Http.Outcome}

/-- When a call succeeds, and with what. -/
theorem read_eq_ok_iff {result : call.Result} :
    (call.exchange c).read outcome = .ok result ↔
      ∃ status text body, outcome = .answered status text ∧ isSuccess status = true ∧
        Json.ofText text = .ok body ∧ ¬ body.ReportsError ∧ call.Gives body result := by
  rw [read_eq_iff]
  constructor
  · intro h
    cases h with
    | accepted hstatus htext hbody htaken =>
      exact ⟨_, _, _, rfl, hstatus, htext, hbody,
        (taken_eq_ok_iff call (Json.distinct_of_ofText htext)).mp htaken⟩
  · rintro ⟨status, text, body, rfl, hstatus, htext, hbody, hgives⟩
    exact .accepted hstatus htext hbody
      ((taken_eq_ok_iff call (Json.distinct_of_ofText htext)).mpr hgives)

/-- When a call fails for want of an answer. -/
theorem read_eq_transport_iff {message : String} :
    (call.exchange c).read outcome = .error (.transport message) ↔
      outcome.answer (call.address c.settings) = .error message := by
  rw [read_eq_iff]
  constructor
  · intro h
    cases h with
    | unanswered hanswer => exact hanswer
  · exact .unanswered

/-- When a call fails for its status, and what is kept of the body. -/
theorem read_eq_status_iff {code : Nat} {body : Option Json} :
    (call.exchange c).read outcome = .error (.status code body) ↔
      ∃ text, outcome = .answered code text ∧ isSuccess code = false ∧
        body = (Json.ofText text).toOption := by
  rw [read_eq_iff]
  constructor
  · intro h
    cases h with
    | refused hstatus => exact ⟨_, rfl, hstatus, rfl⟩
  · rintro ⟨text, rfl, hstatus, rfl⟩
    exact .refused hstatus

/-- When a call fails for what the server reports. -/
theorem read_eq_server_iff {body : Json} :
    (call.exchange c).read outcome = .error (.server body) ↔
      ∃ status text, outcome = .answered status text ∧ isSuccess status = true ∧
        Json.ofText text = .ok body ∧ body.ReportsError := by
  rw [read_eq_iff]
  constructor
  · intro h
    cases h with
    | complained hstatus htext hbody => exact ⟨_, _, rfl, hstatus, htext, hbody⟩
  · rintro ⟨status, text, rfl, hstatus, htext, hbody⟩
    exact .complained hstatus htext hbody

/-- When a call fails because the answer cannot be read. -/
theorem exists_read_eq_decode_iff :
    (∃ message, (call.exchange c).read outcome = .error (.decode message)) ↔
      ∃ status text, outcome = .answered status text ∧ isSuccess status = true ∧
        ((∀ body, Json.ofText text ≠ .ok body) ∨
          ∃ body, Json.ofText text = .ok body ∧ ¬ body.ReportsError ∧
            ∀ result, ¬ call.Gives body result) := by
  simp only [read_eq_iff]
  constructor
  · rintro ⟨message, h⟩
    cases h with
    | garbled hstatus htext =>
      refine ⟨_, _, rfl, hstatus, .inl ?_⟩
      intro body hbody
      cases htext.symm.trans hbody
    | unsuitable hstatus htext hbody htaken =>
      refine ⟨_, _, rfl, hstatus, .inr ⟨_, htext, hbody, ?_⟩⟩
      intro result hgives
      have hresult := (taken_eq_ok_iff call (Json.distinct_of_ofText htext)).mpr hgives
      cases htaken.symm.trans hresult
  · rintro ⟨status, text, rfl, hstatus, htext | ⟨body, htext, hbody, hnone⟩⟩
    · cases hparsed : Json.ofText text with
      | ok body => exact absurd hparsed (htext body)
      | error problem => exact ⟨_, .garbled hstatus hparsed⟩
    · cases htaken : call.taken body with
      | ok result =>
        have hdistinct := Json.distinct_of_ofText htext
        exact absurd ((taken_eq_ok_iff call hdistinct).mp htaken) (hnone result)
      | error problem => exact ⟨_, .unsuitable hstatus htext hbody htaken⟩

/-- A call hands over one request, to its own address, and does nothing else. What comes of it is
told by the first of these that applies: there is no answer, the status is not one of success, the
text is no JSON, the body holds an error, the body is not what the call is to give, or it is. -/
theorem one_request_and_its_result (c : Client) (call : Call) (scene : Scene) :
    let exchange := call.exchange c
    let outcome := scene.answer.1
    let result := exchange.read outcome
    (Errand.exchange exchange).course scene =
        ⟨[.exchanged exchange.request outcome],
          result.mapError fun e => .ofFailure (.ofSubmit e), scene.answer.2⟩ ∧
      exchange.request.url = call.address c.settings ∧
      (∀ a, result = .ok a ↔ ∃ status text body, outcome = .answered status text ∧
        (200 ≤ status ∧ status < 300) ∧ Json.ofText text = .ok body ∧ ¬ body.HoldsError ∧
        call.Gives body a) ∧
      (∀ message, result = .error (.transport message) ↔
        outcome.answer exchange.request.url = .error message) ∧
      (∀ code kept, result = .error (.status code kept) ↔ ∃ text, outcome = .answered code text ∧
        ¬ (200 ≤ code ∧ code < 300) ∧ kept = (Json.ofText text).toOption) ∧
      ((∃ message, result = .error (.decode message)) ↔ ∃ status text,
        outcome = .answered status text ∧ (200 ≤ status ∧ status < 300) ∧
        ((∀ body, Json.ofText text ≠ .ok body) ∨ ∃ body, Json.ofText text = .ok body ∧
          ¬ body.HoldsError ∧ ∀ a, ¬ call.Gives body a)) ∧
      (∀ body, result = .error (.server body) ↔ ∃ status text, outcome = .answered status text ∧
        (200 ≤ status ∧ status < 300) ∧ Json.ofText text = .ok body ∧ body.HoldsError) := by
  intro exchange outcome result
  have haddress : exchange.request.url = call.address c.settings := by
    cases call <;> rfl
  simp only [haddress, ← isSuccess_iff, Bool.not_eq_true, ← Json.reportsError_iff]
  exact ⟨rfl, trivial, fun _ => read_eq_ok_iff, fun _ => read_eq_transport_iff,
    fun _ _ => read_eq_status_iff, exists_read_eq_decode_iff, fun _ => read_eq_server_iff⟩

end Call

end Client

end DatalogClient
