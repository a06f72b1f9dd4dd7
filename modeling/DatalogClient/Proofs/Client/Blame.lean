import DatalogClient.Proofs.Client.Judgement

/-!
# Who is blamed for a failed call

A call fails because nobody answers, because the server refuses, or because what it answers cannot
be read. The report of the first two blames the server. In the last case the failure is classed with
documents that cannot be read, and so the report blames the query, though the query has been sent
and answered.

## Main definitions

* `Client.Call.Unreadable` — answers of success that cannot be read

## Main results

* `Report.kind_ofSubmit` — the kind of the report of each failure
* `Client.Call.unreadable_iff` — which failures are those of reading
* `Client.Call.report_blames_iff` — when a call fails in reading, and whom the report of a failure
  blames
-/

namespace DatalogClient

/-- The kind of a report is told by what failed. -/
theorem Report.kind_ofSubmit (e : SubmitError) :
    (Report.ofFailure (.ofSubmit e)).kind =
      match e with
      | .transport _ => .api .unreachable
      | .status _ _ => .api .rejected
      | .server _ => .api .rejected
      | .decode _ => .query .malformed := by
  cases e <;> rfl

theorem Report.unreachable_iff (e : SubmitError) :
    (Report.ofFailure (.ofSubmit e)).kind = .api .unreachable ↔
      ∃ message, e = .transport message := by
  rw [Report.kind_ofSubmit]
  cases e <;> simp

theorem Report.malformed_iff (e : SubmitError) :
    (Report.ofFailure (.ofSubmit e)).kind = .query .malformed ↔ ∃ message, e = .decode message := by
  rw [Report.kind_ofSubmit]
  cases e <;> simp

theorem Report.exists_api_iff (e : SubmitError) :
    (∃ kind, (Report.ofFailure (.ofSubmit e)).kind = .api kind) ↔
      ¬ ∃ message, e = .decode message := by
  rw [Report.kind_ofSubmit]
  cases e <;> simp

namespace Client

/-- The answer to a call has a status of success and cannot be read: it is no JSON, or it reports no
error and is not what the call is to give. -/
inductive Call.Unreadable (call : Call) : Http.Outcome → Prop
  | garbled {status : Nat} {text : String} (hstatus : isSuccess status = true)
      (htext : ∀ body, Json.ofText text ≠ .ok body) : call.Unreadable (.answered status text)
  | unsuitable {status : Nat} {text : String} {body : Json} (hstatus : isSuccess status = true)
      (htext : Json.ofText text = .ok body) (hbody : ¬ body.ReportsError)
      (htaken : ∀ result, call.taken body ≠ .ok result) : call.Unreadable (.answered status text)

namespace Call

variable {c : Client} {call : Call} {outcome : Http.Outcome} {e : SubmitError}

/-- What cannot be read makes the call fail. -/
theorem Unreadable.fails (h : call.Unreadable outcome) (c : Client) :
    ∃ message, (call.exchange c).read outcome = .error (.decode message) := by
  simp only [read_eq_iff]
  cases h with
  | @garbled status text hstatus htext =>
    cases hparsed : Json.ofText text with
    | ok body => exact absurd hparsed (htext body)
    | error problem => exact ⟨_, .garbled hstatus hparsed⟩
  | @unsuitable status text body hstatus htext hbody htaken =>
    cases hresult : call.taken body with
    | ok result => exact absurd hresult (htaken result)
    | error problem => exact ⟨_, .unsuitable hstatus htext hbody hresult⟩

/-- The calls that fail in reading are those whose answers cannot be read. -/
theorem unreadable_iff (h : (call.exchange c).read outcome = .error e) :
    call.Unreadable outcome ↔ ∃ message, e = .decode message := by
  constructor
  · intro hunreadable
    obtain ⟨message, hmessage⟩ := hunreadable.fails c
    exact ⟨message, Except.error.inj (h.symm.trans hmessage)⟩
  · rintro ⟨message, rfl⟩
    -- Two of the rules end in such a failure.
    cases (read_eq_iff c call outcome).mp h with
    | garbled hstatus htext =>
      exact .garbled hstatus fun body hbody => nomatch htext.symm.trans hbody
    | unsuitable hstatus htext hbody htaken =>
      exact .unsuitable hstatus htext hbody fun result hresult => nomatch htaken.symm.trans hresult

/-- The calls that fail without an answer are those that get none. -/
theorem unanswered_iff (h : (call.exchange c).read outcome = .error e) :
    (∀ status text, outcome ≠ .answered status text) ↔ ∃ message, e = .transport message := by
  cases (read_eq_iff c call outcome).mp h with
  | unanswered hanswer =>
    refine iff_of_true ?_ ⟨_, rfl⟩
    rintro status text rfl
    cases hanswer
  | _ => exact iff_of_false (fun hnone => hnone _ _ rfl) nofun

/-- A call whose answer cannot be read fails. The report of a failed call blames the server exactly
if it is not for such an answer, and says that it was not reached exactly if there was none. Else it
says that the query is malformed. -/
theorem report_blames_iff (c : Client) (call : Call) (outcome : Http.Outcome) :
    (call.Unreadable outcome → ∃ e, (call.exchange c).read outcome = .error e) ∧
      ∀ e, (call.exchange c).read outcome = .error e →
        let report := Report.ofFailure (.ofSubmit e)
        ((∃ kind, report.kind = .api kind) ↔ ¬ call.Unreadable outcome) ∧
          (report.kind = .api .unreachable ↔ ∀ status text, outcome ≠ .answered status text) ∧
          (report.kind = .query .malformed ↔ call.Unreadable outcome) := by
  constructor
  · intro h
    obtain ⟨message, hmessage⟩ := h.fails c
    exact ⟨.decode message, hmessage⟩
  · intro e h report
    refine ⟨?_, ?_, ?_⟩
    · rw [Report.exists_api_iff, unreadable_iff h]
    · rw [Report.unreachable_iff, unanswered_iff h]
    · rw [Report.malformed_iff, unreadable_iff h]

/-- A server that is out of order is blamed, and so is one that is not there. -/
theorem brokenServer_blamed :
    let call := Call.submit { find := [.var "?e"] }
    let exchange := call.exchange ⟨.default, []⟩
    (∃ e, exchange.read (.answered 503 "oops") = .error e ∧
        ∃ kind, (Report.ofFailure (.ofSubmit e)).kind = .api kind) ∧
      ∃ e, exchange.read .refused = .error e ∧
        (Report.ofFailure (.ofSubmit e)).kind = .api .unreachable := by
  intro call exchange
  have hbroken := (read_eq_iff ⟨.default, []⟩ call (.answered 503 "oops")).mpr (.refused rfl)
  have hreadable : ¬ call.Unreadable (.answered 503 "oops") := by
    rw [unreadable_iff hbroken]
    exact nofun
  refine ⟨⟨_, hbroken, ?_⟩, _, rfl, ?_⟩
  · exact ((report_blames_iff _ call _).2 _ hbroken).1.mpr hreadable
  · exact ((report_blames_iff _ call .refused).2 _ rfl).2.1.mpr nofun

theorem isOk_ofText_oops : (Json.ofText "oops").isOk = false := by decide +kernel

/-- A server that answers a question with something else than JSON is not blamed: the report says
that the query is malformed. -/
theorem garbledAnswer_blamed :
    ∃ client, Client.ofSettings .default = .ok client ∧
      ∃ e, (client.submit { find := [.var "?e"] }).read (.answered 200 "oops") = .error e ∧
        (Report.ofFailure (.ofSubmit e)).kind = .query .malformed ∧
        ∀ kind, (Report.ofFailure (.ofSubmit e)).kind ≠ .api kind := by
  have htext : ∀ body, Json.ofText "oops" ≠ .ok body := by
    intro body hbody
    have hok := isOk_ofText_oops
    rw [hbody] at hok
    cases hok
  have hunreadable : (Call.submit { find := [.var "?e"] }).Unreadable (.answered 200 "oops") :=
    .garbled rfl htext
  obtain ⟨message, hmessage⟩ := hunreadable.fails ⟨.default, []⟩
  exact ⟨⟨.default, []⟩, rfl, .decode message, hmessage, rfl, nofun⟩

end Call

end Client

end DatalogClient
