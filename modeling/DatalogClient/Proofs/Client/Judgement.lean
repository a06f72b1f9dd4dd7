import DatalogClient.Client

/-!
# How outcomes are judged

What becomes of a request is judged by six rules. There is no answer; or the status is one of
failure, whatever else is sent; or the text is no JSON; or the body reports an error; or it is not
what was asked for; or it is. The rules are told apart by what they ask for, and one of them always
applies, so that a call of a client gives just what the rules say.

## Main definitions

* `Json.ReportsError` — bodies that report an error
* `Client.Call` — what a client can be asked for
* `Client.Judged` — the rules

## Main results

* `Client.judged_readBody`, `Client.Judged.eq_readBody` — the rules say what comes of an outcome
* `Client.Call.read_eq_iff` — what comes of a call is what the rules say
-/

namespace DatalogClient

/-- The body reports an error: it is an object with an `error` that counts as true. -/
def Json.ReportsError (body : Json) : Prop :=
  ∃ error, body.member? "error" = some error ∧ isTruthy error = true

theorem checkResponse_of_reportsError {body : Json} (h : body.ReportsError) :
    checkResponse body = .error (.server body) := by
  obtain ⟨error, hmember, htrue⟩ := h
  rw [checkResponse, hmember]
  exact if_pos htrue

theorem checkResponse_of_not_reportsError {body : Json} (h : ¬ body.ReportsError) :
    checkResponse body = .ok body := by
  rw [checkResponse]
  cases hmember : body.member? "error" with
  | none => rfl
  | some error => exact if_neg fun htrue => h ⟨error, hmember, htrue⟩

namespace Client

/-! ### Calls -/

/-- What a client can be asked for. -/
inductive Call where
  | submit (document : Document)
  | translate (document : Document)
  | fetchSchema
  | fetchEntityShapes

namespace Call

/-- What a call is to give. -/
abbrev Result : Call → Type
  | submit _ => Json
  | translate _ => Json
  | fetchSchema => List SchemaEntry
  | fetchEntityShapes => List EntityShape

/-- The address that a call goes to. -/
def address : Call → Settings → String
  | submit _ => Settings.submitQueryEndpoint
  | translate _ => Settings.translateQueryEndpoint
  | fetchSchema => Settings.fetchSchemaEndpoint
  | fetchEntityShapes => Settings.fetchEntityShapesEndpoint

/-- The exchange of a call. -/
def exchange (c : Client) : (call : Call) → Exchange call.Result
  | submit document => c.submit document
  | translate document => c.translate document
  | fetchSchema => c.fetchSchema
  | fetchEntityShapes => c.fetchEntityShapes

/-- The list in the envelope that the body is. -/
def enclosed {α : Type} (item : Decoder α) (body : Json) : Except Problem (List α) :=
  (Envelope.decode item (.ofJson body)).map Envelope.data

/-- What a call takes from a body that reports no error: the whole, or the list that it encloses. -/
def taken : (call : Call) → Json → Except Problem call.Result
  | submit _, body => .ok body
  | translate _, body => .ok body
  | fetchSchema, body => enclosed SchemaEntry.decode body
  | fetchEntityShapes, body => enclosed EntityShape.decode body

end Call

/-! ### Rules -/

variable {α : Type}

/-- What is said of the outcome of a request to an address, if something is taken from the body of
the answer. -/
inductive Judged (url : String) (taken : Json → Except Problem α) :
    Http.Outcome → Except SubmitError α → Prop
  /-- There is no answer. -/
  | unanswered {outcome : Http.Outcome} {message : String}
      (hanswer : outcome.answer url = .error message) :
      Judged url taken outcome (.error (.transport message))
  /-- The status is one of failure. -/
  | refused {status : Nat} {text : String} (hstatus : isSuccess status = false) :
      Judged url taken (.answered status text)
        (.error (.status status (Json.ofText text).toOption))
  /-- The text is no JSON. -/
  | garbled {status : Nat} {text : String} {problem : Problem} (hstatus : isSuccess status = true)
      (htext : Json.ofText text = .error problem) :
      Judged url taken (.answered status text) (.error (.decode problem.message))
  /-- The body reports an error. -/
  | complained {status : Nat} {text : String} {body : Json} (hstatus : isSuccess status = true)
      (htext : Json.ofText text = .ok body) (hbody : body.ReportsError) :
      Judged url taken (.answered status text) (.error (.server body))
  /-- The body is not what was asked for. -/
  | unsuitable {status : Nat} {text : String} {body : Json} {problem : Problem}
      (hstatus : isSuccess status = true) (htext : Json.ofText text = .ok body)
      (hbody : ¬ body.ReportsError) (htaken : taken body = .error problem) :
      Judged url taken (.answered status text) (.error (.decode problem.message))
  /-- All is well. -/
  | accepted {status : Nat} {text : String} {body : Json} {a : α}
      (hstatus : isSuccess status = true) (htext : Json.ofText text = .ok body)
      (hbody : ¬ body.ReportsError) (htaken : taken body = .ok a) :
      Judged url taken (.answered status text) (.ok a)

variable {url : String} {taken : Json → Except Problem α} {outcome : Http.Outcome}

/-- The status is looked at before the text. -/
theorem readBody_of_failure {status : Nat} (h : isSuccess status = false) (text : String) :
    readBody url (.answered status text) =
      .error (.status status (Json.ofText text).toOption) := by
  rw [readBody, Http.Outcome.answer]
  exact if_neg (Bool.eq_false_iff.mp h)

theorem readBody_of_success {status : Nat} (h : isSuccess status = true) (text : String) :
    readBody url (.answered status text) =
      match Json.ofText text with
      | .error problem => .error (.decode problem.message)
      | .ok body => checkResponse body := by
  rw [readBody, Http.Outcome.answer]
  exact if_pos h

/-- A rule applies to every outcome. -/
theorem judged_readBody (url : String) (taken : Json → Except Problem α) (outcome : Http.Outcome) :
    Judged url taken outcome ((readBody url outcome).bind fun body =>
      (taken body).mapError fun problem => .decode problem.message) := by
  cases outcome with
  | answered status text =>
    cases hstatus : isSuccess status with
    | false =>
      rw [readBody_of_failure hstatus]
      exact .refused hstatus
    | true =>
      rw [readBody_of_success hstatus]
      cases htext : Json.ofText text with
      | error problem => exact .garbled hstatus htext
      | ok body =>
        dsimp only
        by_cases hbody : body.ReportsError
        · rw [checkResponse_of_reportsError hbody]
          exact .complained hstatus htext hbody
        · rw [checkResponse_of_not_reportsError hbody, Except.bind]
          cases htaken : taken body with
          | error problem => exact .unsuitable hstatus htext hbody htaken
          | ok a => exact .accepted hstatus htext hbody htaken
  | _ => exact .unanswered rfl

/-- What a rule says of an outcome is what comes of reading it, so that no two rules contradict each
other. -/
theorem Judged.eq_readBody {result : Except SubmitError α} (h : Judged url taken outcome result) :
    result = (readBody url outcome).bind fun body =>
      (taken body).mapError fun problem => .decode problem.message := by
  cases h with
  | unanswered hanswer => rw [readBody, hanswer]; rfl
  | refused hstatus => rw [readBody_of_failure hstatus]; rfl
  | garbled hstatus htext => rw [readBody_of_success hstatus, htext]; rfl
  | complained hstatus htext hbody =>
    rw [readBody_of_success hstatus, htext]
    dsimp only
    rw [checkResponse_of_reportsError hbody]
    rfl
  | unsuitable hstatus htext hbody htaken | accepted hstatus htext hbody htaken =>
    rw [readBody_of_success hstatus, htext]
    dsimp only
    rw [checkResponse_of_not_reportsError hbody, Except.bind, htaken]
    rfl

/-- What is taken from the body of a call comes of the call, unless there is none. -/
theorem Call.read_exchange (c : Client) (call : Call) (outcome : Http.Outcome) :
    (call.exchange c).read outcome =
      (readBody (call.address c.settings) outcome).bind fun body =>
        (call.taken body).mapError fun problem => .decode problem.message := by
  have henclosed : ∀ {β : Type} (item : Decoder β) (body : Json), openEnvelope item body =
      (enclosed item body).mapError fun problem => .decode problem.message := by
    intro β item body
    unfold openEnvelope enclosed
    cases Envelope.decode item (.ofJson body) <;> rfl
  have hwhole : ∀ result : Except SubmitError Json, result = result.bind .ok := by
    intro result
    cases result <;> rfl
  cases call with
  | submit document => exact hwhole _
  | translate document => exact hwhole _
  | fetchSchema => exact congrArg _ (funext (henclosed SchemaEntry.decode))
  | fetchEntityShapes => exact congrArg _ (funext (henclosed EntityShape.decode))

/-- What comes of a call is what the rules say of its outcome. -/
theorem Call.read_eq_iff (c : Client) (call : Call) (outcome : Http.Outcome)
    {result : Except SubmitError call.Result} :
    (call.exchange c).read outcome = result ↔
      Judged (call.address c.settings) call.taken outcome result := by
  rw [Call.read_exchange]
  constructor
  · rintro rfl
    exact judged_readBody _ _ outcome
  · exact fun h => h.eq_readBody.symm

end Client

end DatalogClient
