import DatalogClient.Proofs.Client.Judgement
import DatalogClient.Proofs.Json.Nesting

/-!
# The server's own words

A server says what is wrong in the `error` of the body that it sends: in a text, or in the `message`
of an object. Whatever the status, the whole body stays with the failure. The words become the
message of the report only if the status is one of success; else the report tells the status.

## Main definitions

* `Json.Says` — the words in which a body reports an error

## Main results

* `Json.Says.serverMessage_eq` — the words that are looked for are those
* `Client.Call.words_shown_iff` — when the report of a failed call shows them
-/

namespace DatalogClient

namespace Json

variable {body : Json} {words : String}

/-- The words in which a body reports an error: the text of its `error`, unless that is empty, or
the text of the `message` in that. -/
inductive Says (body : Json) : String → Prop
  | plainly {words : String} (herror : body.member? "error" = some (.str words))
      (hwords : words ≠ "") : body.Says words
  | within {error : Json} {words : String} (herror : body.member? "error" = some error)
      (hmessage : error.member? "message" = some (.str words)) : body.Says words

/-- Only an object has a message. -/
theorem exists_eq_obj_of_member? {j value : Json} {name : String}
    (h : j.member? name = some value) : ∃ members, j = .obj members := by
  cases j with
  | obj members => exact ⟨members, rfl⟩
  | _ => cases h

theorem Says.reportsError (h : body.Says words) : body.ReportsError := by
  cases h with
  | plainly herror hwords => exact ⟨_, herror, by simpa [isTruthy] using hwords⟩
  | within herror hmessage =>
    obtain ⟨members, rfl⟩ := exists_eq_obj_of_member? hmessage
    exact ⟨_, herror, rfl⟩

/-- The words that are looked for are those in which the error is reported. -/
theorem Says.serverMessage_eq (h : body.Says words) : serverMessage body = words := by
  cases h with
  | plainly herror hwords => simp [serverMessage, herror, text?]
  | within herror hmessage =>
    obtain ⟨members, rfl⟩ := exists_eq_obj_of_member? hmessage
    simp [serverMessage, herror, hmessage, text?]

end Json

/-- The report of a submission that failed has its message. No issues are listed after it. -/
theorem Report.message_ofSubmit (e : SubmitError) :
    (Report.ofFailure (.ofSubmit e)).message = e.message := by
  cases e with
  | status code body => cases body <;> rfl
  | _ => rfl

namespace Client

namespace Call

/-- A call that is answered by a body with words about an error fails, and the body stays with the
failure. The report shows the words exactly if the status is one of success, or they are what is
told of the status anyway. -/
theorem words_shown_iff (c : Client) (call : Call) (status : Nat) {text : String} {body : Json}
    {words : String} (htext : Json.ofText text = .ok body) (hwords : body.Says words) :
    ∃ e, (call.exchange c).read (.answered status text) = .error e ∧
      (Failure.ofSubmit e).body? = some body ∧
      ((Report.ofFailure (.ofSubmit e)).message = words ↔
        isSuccess status = true ∨ words = "server responded with status " ++ toString status) := by
  simp only [read_eq_iff, Report.message_ofSubmit]
  cases hstatus : isSuccess status with
  | true =>
    refine ⟨.server body, .complained hstatus htext hwords.reportsError, rfl, ?_⟩
    exact iff_of_true hwords.serverMessage_eq (.inl rfl)
  | false =>
    -- The status is looked at first. The body is kept, but nobody asks it for its words.
    have hrefused := @Judged.refused _ (call.address c.settings) call.taken status text hstatus
    rw [htext] at hrefused
    refine ⟨.status status (some body), hrefused, rfl, ?_⟩
    rw [or_iff_right Bool.false_ne_true, eq_comm]
    rfl

/-- A body that says what is wrong in the message of an object. -/
def attributeComplaint : Json := .obj [("error", .obj [("message", .str "no such attribute")])]

/-- Its text. -/
def attributeComplaintText : String :=
  "\x7b\"error\":\x7b\"message\":\"no such attribute\"\x7d\x7d"

theorem ofText_attributeComplaintText :
    Json.ofText attributeComplaintText = .ok attributeComplaint := by
  have htext : attributeComplaint.compact = attributeComplaintText := rfl
  rw [← htext]
  have hdistinct : attributeComplaint.Distinct := by simp [attributeComplaint]
  have hwhole : attributeComplaint.Whole := by simp [attributeComplaint]
  exact Json.ofText_compact hwhole (by decide) hdistinct

theorem attributeComplaint_says : attributeComplaint.Says "no such attribute" := .within rfl rfl

/-- With a status of success the words are shown. -/
theorem attributeComplaint_shown :
    ∃ e, ((submit { find := [.var "?e"] }).exchange ⟨.default, []⟩).read
        (.answered 200 attributeComplaintText) = .error e ∧
      (Failure.ofSubmit e).body? = some attributeComplaint ∧
      (Report.ofFailure (.ofSubmit e)).message = "no such attribute" := by
  obtain ⟨e, he, hbody, hmessage⟩ := words_shown_iff ⟨.default, []⟩
    (submit { find := [.var "?e"] }) 200 ofText_attributeComplaintText attributeComplaint_says
  exact ⟨e, he, hbody, hmessage.mpr (.inl rfl)⟩

/-- With a status of failure the same words are not shown. -/
theorem attributeComplaint_not_shown :
    Json.ofText attributeComplaintText = .ok attributeComplaint ∧
      attributeComplaint.Says "no such attribute" ∧
      ∃ e, (Client.submit ⟨.default, []⟩ { find := [.var "?e"] }).read
          (.answered 400 attributeComplaintText) = .error e ∧
        (Report.ofFailure (.ofSubmit e)).message = "server responded with status 400" ∧
        (Report.ofFailure (.ofSubmit e)).message ≠ "no such attribute" := by
  have hrefused := (read_eq_iff ⟨.default, []⟩ (submit { find := [.var "?e"] })
    (.answered 400 attributeComplaintText)).mpr (.refused rfl)
  rw [ofText_attributeComplaintText] at hrefused
  exact ⟨ofText_attributeComplaintText, attributeComplaint_says,
    .status 400 (some attributeComplaint), hrefused, rfl, by decide⟩

end Call

end Client

end DatalogClient
