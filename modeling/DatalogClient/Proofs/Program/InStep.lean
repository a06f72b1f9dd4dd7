import DatalogClient.Proofs.Program.Course
import Mathlib.Data.List.Forall2

/-!
# Dialogues in step

Two dialogues are in step if they write the same texts, read the same sources and send related
requests, in the same order and whatever they get, and end with related results. Held in worlds
that answer them alike they leave transcripts that differ only as the requests do.

Dialogues are shown to be in step part by part: what comes after two parts in step may rely on how
the results of the parts are related, and not on the results themselves.

## Main definitions

* `Dialogue.InStep`, `Errand.InStep` — two dialogues, or errands, are in step
* `Scene.Agree` — two worlds have the same script, and the same sources as far as they are read
* `Transcript.Alike` — two transcripts differ in related requests only

## Main results

* `Dialogue.InStep.bind`, `Errand.InStep.bind` — parts in step, one after the other
* `Dialogue.InStep.play` — dialogues in step leave alike transcripts
-/

namespace DatalogClient

variable {α β γ δ : Type}

section

-- How requests are related, and what may be read.
variable {ask : Http.Request → Http.Request → Prop} {reads : SourceName → Prop}

/-! ### Worlds and transcripts -/

/-- The worlds have the same script, and the same sources under the names that may be read. -/
structure Scene.Agree (reads : SourceName → Prop) (s s' : Scene) : Prop where
  script : s.script = s'.script
  source : ∀ name, reads name → s.source name = s'.source name

/-- Worlds that agree answer alike, and agree afterwards. -/
theorem Scene.Agree.answer {s s' : Scene} (h : s.Agree reads s') :
    s.answer.1 = s'.answer.1 ∧ s.answer.2.Agree reads s'.answer.2 := by
  obtain ⟨houtcome, hscript⟩ := Scene.answer_congr h.script
  refine ⟨houtcome, hscript, ?_⟩
  intro name hname
  rw [Scene.source_answer, Scene.source_answer]
  exact h.source name hname

/-- The transcripts differ in related requests only. -/
structure Transcript.Alike (ask : Http.Request → Http.Request → Prop) (t t' : Transcript) :
    Prop where
  output : t.output = t'.output
  errors : t.errors = t'.errors
  requests : List.Forall₂ ask t.requests t'.requests

/-! ### Dialogues -/

namespace Dialogue

/-- The dialogues do the same but for related requests, and end with related results. -/
inductive InStep (ask : Http.Request → Http.Request → Prop) (reads : SourceName → Prop)
    (agree : α → β → Prop) : Dialogue α → Dialogue β → Prop
  | done {a : α} {b : β} (h : agree a b) : InStep ask reads agree (.done a) (.done b)
  | write {channel : Channel} {text : String} {next : Dialogue α} {next' : Dialogue β}
    (h : InStep ask reads agree next next') :
    InStep ask reads agree (.write channel text next) (.write channel text next')
  | read {name : SourceName} {next : Source → Dialogue α} {next' : Source → Dialogue β}
    (hname : reads name) (h : ∀ source, InStep ask reads agree (next source) (next' source)) :
    InStep ask reads agree (.read name next) (.read name next')
  | send {request request' : Http.Request} {next : Http.Outcome → Dialogue α}
    {next' : Http.Outcome → Dialogue β} (hrequest : ask request request')
    (h : ∀ outcome, InStep ask reads agree (next outcome) (next' outcome)) :
    InStep ask reads agree (.send request next) (.send request' next')

variable {agree : α → β → Prop} {agree' : γ → δ → Prop} {d : Dialogue α} {d' : Dialogue β}

theorem inStep_line (channel : Channel) (text : String) :
    InStep ask reads Eq (line channel text) (line channel text) := .write (.done rfl)

/-- What comes after may rely on how the results are related. -/
theorem InStep.bind (h : InStep ask reads agree d d') {next : α → Dialogue γ}
    {next' : β → Dialogue δ}
    (hnext : ∀ a b, agree a b → InStep ask reads agree' (next a) (next' b)) :
    InStep ask reads agree' (d >>= next) (d' >>= next') := by
  change InStep ask reads agree' (d.bind next) (d'.bind next')
  induction h with
  | done hab => exact hnext _ _ hab
  | write _ ih => exact .write ih
  | read hname _ ih => exact .read hname ih
  | send hrequest _ ih => exact .send hrequest ih

/-- After results that are the same something is done with the one result. -/
theorem InStep.bind_same {d d' : Dialogue α} (h : InStep ask reads Eq d d')
    {next : α → Dialogue γ} {next' : α → Dialogue δ}
    (hnext : ∀ a, InStep ask reads agree' (next a) (next' a)) :
    InStep ask reads agree' (d >>= next) (d' >>= next') := by
  apply h.bind
  rintro a _ rfl
  exact hnext a

/-- Dialogues in step, held in worlds that agree, leave alike transcripts and related results. -/
theorem InStep.play (h : InStep ask reads agree d d') {s s' : Scene} (hs : s.Agree reads s') :
    (d.play s).1.Alike ask (d'.play s').1 ∧ agree (d.play s).2.1 (d'.play s').2.1 := by
  -- The worlds change with every exchange, and go on to agree.
  induction h generalizing s s' with
  | done hab => exact ⟨⟨rfl, rfl, .nil⟩, hab⟩
  | @write channel text next next' _ ih =>
    obtain ⟨halike, hresult⟩ := ih hs
    refine ⟨?_, hresult⟩
    cases channel with
    | output => exact ⟨congrArg (text ++ ·) halike.output, halike.errors, halike.requests⟩
    | errors => exact ⟨halike.output, congrArg (text ++ ·) halike.errors, halike.requests⟩
  | @read name next next' hname _ ih =>
    have hsource := hs.source name hname
    simp only [Dialogue.play, ← hsource]
    exact ih _ hs
  | @send request request' next next' hrequest _ ih =>
    obtain ⟨houtcome, hafter⟩ := hs.answer
    obtain ⟨halike, hresult⟩ := ih s.answer.1 hafter
    simp only [Dialogue.play, ← houtcome]
    refine ⟨?_, hresult⟩
    simp only [Transcript.sending]
    split_ifs
    · exact ⟨halike.output, halike.errors, .cons hrequest halike.requests⟩
    · exact halike

end Dialogue

/-! ### Errands -/

namespace Errand

/-- Both errands come to related results, or to the same trouble. -/
def Agree (agree : α → β → Prop) : Except Trouble α → Except Trouble β → Prop
  | .ok a, .ok b => agree a b
  | .error t, .error t' => t = t'
  | _, _ => False

/-- The errands are in step as dialogues. -/
def InStep (ask : Http.Request → Http.Request → Prop) (reads : SourceName → Prop)
    (agree : α → β → Prop) (e : Errand α) (e' : Errand β) : Prop :=
  Dialogue.InStep ask reads (Agree agree) e.run e'.run

variable {agree : α → β → Prop} {agree' : γ → δ → Prop} {e : Errand α} {e' : Errand β}

theorem inStep_pure {a : α} {b : β} (h : agree a b) :
    InStep ask reads agree (pure a) (pure b) := .done h

theorem inStep_lift {d : Dialogue α} {d' : Dialogue β} (h : Dialogue.InStep ask reads agree d d') :
    InStep ask reads agree (ExceptT.lift d) (ExceptT.lift d') := by
  change Dialogue.InStep ask reads (Agree agree) (Except.ok <$> d) (Except.ok <$> d')
  rw [← bind_pure_comp, ← bind_pure_comp]
  exact h.bind fun a b hab => .done hab

theorem inStep_print (text : String) : InStep ask reads Eq (print text) (print text) :=
  inStep_lift (Dialogue.inStep_line _ _)

theorem inStep_readSource {name : SourceName} (hname : reads name) :
    InStep ask reads Eq (readSource name) (readSource name) :=
  .read hname fun _ => .done rfl

/-- Both computations come to related results, or fail for the same reason. -/
theorem inStep_ofExcept {ε : Type} (trouble : ε → Trouble) {r : Except ε α} {r' : Except ε β}
    (h : (∃ a b, r = .ok a ∧ r' = .ok b ∧ agree a b) ∨ ∃ e, r = .error e ∧ r' = .error e) :
    InStep ask reads agree (ofExcept trouble r) (ofExcept trouble r') := by
  obtain ⟨a, b, rfl, rfl, hab⟩ | ⟨e, rfl, rfl⟩ := h
  · exact .done hab
  · exact .done rfl

theorem inStep_ofExcept_same {ε : Type} (trouble : ε → Trouble) (r : Except ε α) :
    InStep ask reads Eq (ofExcept trouble r) (ofExcept trouble r) := by
  apply inStep_ofExcept
  cases r with
  | ok a => exact .inl ⟨a, a, rfl, rfl, rfl⟩
  | error e => exact .inr ⟨e, rfl, rfl⟩

/-- What comes after is done in both cases or in neither, and may rely on how the results are
related. -/
theorem InStep.bind (h : InStep ask reads agree e e') {next : α → Errand γ} {next' : β → Errand δ}
    (hnext : ∀ a b, agree a b → InStep ask reads agree' (next a) (next' b)) :
    InStep ask reads agree' (e >>= next) (e' >>= next') := by
  refine Dialogue.InStep.bind h ?_
  intro result result' hresult
  cases result with
  | ok a =>
    cases result' with
    | ok b => exact hnext a b hresult
    | error t => exact hresult.elim
  | error t =>
    cases result' with
    | ok b => exact hresult.elim
    | error t' =>
      obtain rfl : t = t' := hresult
      exact .done rfl

theorem InStep.bind_same {e e' : Errand α} (h : InStep ask reads Eq e e') {next : α → Errand γ}
    {next' : α → Errand δ} (hnext : ∀ a, InStep ask reads agree' (next a) (next' a)) :
    InStep ask reads agree' (e >>= next) (e' >>= next') := by
  apply h.bind
  rintro a _ rfl
  exact hnext a

/-- Lines are printed one after the other. -/
theorem inStep_forM_print (lines : List String) :
    InStep ask reads Eq (lines.forM print) (lines.forM print) := by
  induction lines with
  | nil => exact inStep_pure rfl
  | cons line lines ih => exact (inStep_print line).bind_same fun _ => ih

/-- Exchanges are in step if their requests are related and the outcomes are read alike. -/
theorem inStep_exchange {x x' : Exchange α} (hrequest : ask x.request x'.request)
    (hread : x.read = x'.read) : Dialogue.InStep ask reads Eq (exchange x) (exchange x') := by
  refine .send hrequest fun outcome => ?_
  rw [hread]
  exact .done rfl

end Errand

end

end DatalogClient
