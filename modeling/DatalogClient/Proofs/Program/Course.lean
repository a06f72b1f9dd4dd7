import DatalogClient.Program.Trouble

/-!
# The course of a dialogue

A dialogue that is held in a world takes a course: it writes and has exchanges, one after another,
ends with a result and leaves a world. The transcript of a dialogue is a summary of its course,
from which requests that reached nobody are missing.

An errand that only reads and computes leaves no mark in its course. What the errand comes to is
then a matter of what its parts come to, and the rest of a longer errand is either held in the
same world or not at all.

## Main definitions

* `Event`, `Course`, `Dialogue.course` — what a dialogue does in a world, in order
* `Dialogue.ReadsNothing` — a dialogue that depends on the script of a world only
* `Course.handed`, `Course.output` — the exchanges of a course, and what it wrote
* `Errand.ComesTo` — the errand leaves no mark, and ends with the results that have a property

## Main results

* `Dialogue.course_bind` — the course of two dialogues, one after the other
* `Dialogue.play_eq` — the transcript is a summary of the course
* `Errand.ComesTo.course_bind` — what comes after an errand that leaves no mark
-/

namespace DatalogClient

/-- Something that others notice of a program. -/
inductive Event where
  | wrote (channel : Channel) (text : String)
  /-- A request was handed over, and this became of it. -/
  | exchanged (request : Http.Request) (outcome : Http.Outcome)

namespace Event

/-- The request that was handed over, and what became of it. -/
def exchange? : Event → Option (Http.Request × Http.Outcome)
  | wrote _ _ => none
  | exchanged request outcome => some (request, outcome)

/-- The text that was written there. -/
def writtenTo (channel : Channel) : Event → String
  | wrote c text => if c = channel then text else ""
  | exchanged _ _ => ""

/-- The transcript that begins with the event. -/
def note : Event → Transcript → Transcript
  | wrote channel text => Transcript.writing channel text
  | exchanged request outcome => Transcript.sending request outcome

end Event

/-- What a dialogue did in a world: the events in order, the result, and the world after it. -/
structure Course (α : Type) where
  events : List Event
  result : α
  after : Scene

namespace Course

variable {α : Type}

/-- The same course after other events. -/
def following (before : List Event) (c : Course α) : Course α :=
  { c with events := before ++ c.events }

/-- All requests that were handed over, in order, with what became of each. -/
def handed (c : Course α) : List (Http.Request × Http.Outcome) := c.events.filterMap Event.exchange?

/-- All that was written to the output. -/
def output (c : Course α) : String := String.join (c.events.map (Event.writtenTo .output))

@[simp] theorem events_following (before : List Event) (c : Course α) :
    (c.following before).events = before ++ c.events := rfl

@[simp] theorem result_following (before : List Event) (c : Course α) :
    (c.following before).result = c.result := rfl

@[simp] theorem after_following (before : List Event) (c : Course α) :
    (c.following before).after = c.after := rfl

@[simp] theorem handed_following (before : List Event) (c : Course α) :
    (c.following before).handed = before.filterMap Event.exchange? ++ c.handed :=
  List.filterMap_append ..

@[simp] theorem following_following (first second : List Event) (c : Course α) :
    (c.following second).following first = c.following (first ++ second) := by
  simp [following]

end Course

/-- What becomes of the next request, and the script after it, depend on the script only. -/
theorem Scene.answer_congr {s s' : Scene} (hs : s.script = s'.script) :
    s.answer.1 = s'.answer.1 ∧ s.answer.2.script = s'.answer.2.script := by
  unfold Scene.answer
  rw [hs]
  -- A script may be over, be about to say the same over and over, or go on.
  rcases hscript : s'.script with _ | ⟨first, _ | ⟨second, rest⟩⟩ <;> simp [hs, hscript]

/-- Requests leave the sources as they are. -/
theorem Scene.source_answer (s : Scene) : s.answer.2.source = s.source := by
  unfold Scene.answer
  rcases s.script with _ | ⟨first, _ | ⟨second, rest⟩⟩ <;> rfl

namespace Dialogue

variable {α β : Type}

theorem bind_done (d : Dialogue α) : d.bind done = d := by
  induction d with
  | done result => rfl
  | write channel text rest ih => rw [bind, ih]
  | read name rest ih => exact congrArg (read name) (funext ih)
  | send request rest ih => exact congrArg (send request) (funext ih)

theorem bind_bind {γ : Type} (d : Dialogue α) (next : α → Dialogue β) (next' : β → Dialogue γ) :
    (d.bind next).bind next' = d.bind fun a => (next a).bind next' := by
  induction d with
  | done result => rfl
  | write channel text rest ih => exact congrArg (write channel text) ih
  | read name rest ih => exact congrArg (read name) (funext ih)
  | send request rest ih => exact congrArg (send request) (funext ih)

instance : LawfulMonad Dialogue := LawfulMonad.mk' _ bind_done (fun _ _ => rfl) bind_bind

/-- The course of the dialogue in a world. -/
def course : Dialogue α → Scene → Course α
  | done result, s => ⟨[], result, s⟩
  | write channel text next, s => (next.course s).following [.wrote channel text]
  | read name next, s => (next (s.source name)).course s
  | send request next, s =>
    ((next s.answer.1).course s.answer.2).following [.exchanged request s.answer.1]

@[simp] theorem course_pure (result : α) (s : Scene) :
    (pure result : Dialogue α).course s = ⟨[], result, s⟩ := rfl

/-- Two dialogues one after the other: the second is held in the world that the first leaves. -/
theorem course_bind (d : Dialogue α) (next : α → Dialogue β) (s : Scene) :
    (d >>= next).course s =
      ((next (d.course s).result).course (d.course s).after).following (d.course s).events := by
  change (d.bind next).course s = _
  -- The world changes with every exchange, so the claim is for all of them at once.
  induction d generalizing s with
  | done result => rfl
  | write channel text rest ih =>
    simp only [bind, course, ih, Course.following_following, Course.result_following,
      Course.after_following, Course.events_following]
  | read name rest ih => simp only [bind, course, ih]
  | send request rest ih =>
    simp only [bind, course, ih, Course.following_following, Course.result_following,
      Course.after_following, Course.events_following]

/-- The transcript of a dialogue is a summary of its course. -/
theorem play_eq (d : Dialogue α) (s : Scene) :
    d.play s =
      ((d.course s).events.foldr Event.note {}, (d.course s).result, (d.course s).after) := by
  induction d generalizing s with
  | done result => rfl
  | write channel text rest ih => simp [play, course, ih, Event.note]
  | read name rest ih => simp [play, course, ih]
  | send request rest ih => simp [play, course, ih, Event.note]

/-! ### Dialogues that read nothing -/

/-- The dialogue writes and has exchanges only. -/
inductive ReadsNothing : Dialogue α → Prop
  | done (result : α) : ReadsNothing (.done result)
  | write {channel : Channel} {text : String} {next : Dialogue α} (h : ReadsNothing next) :
    ReadsNothing (.write channel text next)
  | send {request : Http.Request} {next : Http.Outcome → Dialogue α}
    (h : ∀ outcome, ReadsNothing (next outcome)) : ReadsNothing (.send request next)

theorem readsNothing_line (channel : Channel) (text : String) :
    (line channel text).ReadsNothing := .write (.done ())

theorem ReadsNothing.bind {d : Dialogue α} {next : α → Dialogue β} (h : d.ReadsNothing)
    (hnext : ∀ a, (next a).ReadsNothing) : (d >>= next).ReadsNothing := by
  change (d.bind next).ReadsNothing
  induction h with
  | done result => exact hnext result
  | write _ ih => exact .write ih
  | send _ ih => exact .send ih

/-- A dialogue that reads nothing depends on the script of a world only. -/
theorem ReadsNothing.course_congr {d : Dialogue α} (h : d.ReadsNothing) {s s' : Scene}
    (hs : s.script = s'.script) :
    (d.course s).events = (d.course s').events ∧ (d.course s).result = (d.course s').result ∧
      (d.course s).after.script = (d.course s').after.script := by
  induction h generalizing s s' with
  | done result => exact ⟨rfl, rfl, hs⟩
  | write _ ih =>
    obtain ⟨hevents, hresult, hafter⟩ := ih hs
    exact ⟨congrArg (_ :: ·) hevents, hresult, hafter⟩
  | @send request next _ ih =>
    have hanswer := Scene.answer_congr hs
    obtain ⟨hevents, hresult, hafter⟩ := ih s.answer.1 hanswer.2
    simp only [course, Course.events_following, Course.result_following, Course.after_following,
      ← hanswer.1]
    exact ⟨congrArg (_ :: ·) hevents, hresult, hafter⟩

end Dialogue

/-! ### Errands -/

namespace Errand

variable {α β : Type} {e : Errand α} {next : α → Errand β} {s : Scene} {p : α → Prop}

/-- The course of the errand in a world. -/
def course (e : Errand α) (s : Scene) : Course (Except Trouble α) := e.run.course s

/-- The errand leaves no mark in the world. It ends with the results that have the property, or in
trouble if none has. -/
def ComesTo (e : Errand α) (s : Scene) (p : α → Prop) : Prop :=
  ∃ result : Except Trouble α, e.course s = ⟨[], result, s⟩ ∧ ∀ a, result = .ok a ↔ p a

@[simp] theorem course_pure (a : α) (s : Scene) : (pure a : Errand α).course s = ⟨[], .ok a, s⟩ :=
  rfl

/-- A dialogue is an errand that is never in trouble. -/
theorem course_lift (d : Dialogue α) (s : Scene) :
    Errand.course (ExceptT.lift d) s =
      ⟨(d.course s).events, .ok (d.course s).result, (d.course s).after⟩ := by
  change Dialogue.course (Except.ok <$> d) s = _
  rw [← bind_pure_comp, Dialogue.course_bind]
  simp [Course.following]

/-- One errand after another is held only if the first is not in trouble. -/
theorem course_bind (e : Errand α) (next : α → Errand β) (s : Scene) :
    (e >>= next).course s =
      (match (e.course s).result with
        | .ok a => (next a).course (e.course s).after
        | .error t => ⟨[], .error t, (e.course s).after⟩ : Course (Except Trouble β)).following
        (e.course s).events := by
  change (e.run >>= _).course s = _
  rw [Dialogue.course_bind]
  unfold course
  cases (e.run.course s).result <;> rfl

/-- What comes after a dialogue is held in any case. -/
theorem course_lift_bind (d : Dialogue α) (next : α → Errand β) (s : Scene) :
    Errand.course (ExceptT.lift d >>= next) s =
      ((next (d.course s).result).course (d.course s).after).following (d.course s).events := by
  rw [course_bind, course_lift]

/-- An errand after a dialogue reads nothing if neither does. -/
theorem readsNothing_lift_bind {d : Dialogue α}
    (h : d.ReadsNothing) (hnext : ∀ a, (next a).run.ReadsNothing) :
    (ExceptT.lift d >>= next).run.ReadsNothing := by
  change Dialogue.ReadsNothing ((Except.ok <$> d) >>= _)
  rw [← bind_pure_comp, bind_assoc]
  exact h.bind hnext

/-- After an errand that leaves no mark there is trouble at once, or what comes next is held in
the same world. -/
theorem ComesTo.course_bind (h : e.ComesTo s p) (next : α → Errand β) :
    ((∀ a, ¬ p a) ∧ ∃ t, (e >>= next).course s = ⟨[], .error t, s⟩) ∨
      ∃ a, p a ∧ (e >>= next).course s = (next a).course s := by
  obtain ⟨result, hcourse, hresult⟩ := h
  rw [Errand.course_bind, hcourse]
  cases result with
  | ok a => exact .inr ⟨a, (hresult a).mp rfl, rfl⟩
  | error t => exact .inl ⟨fun a ha => (nomatch (hresult a).mpr ha), t, rfl⟩

theorem comesTo_ofExcept {ε : Type} (trouble : ε → Trouble) (r : Except ε α) (s : Scene) :
    (ofExcept trouble r).ComesTo s (r = .ok ·) := by
  refine ⟨r.mapError trouble, rfl, fun a => ?_⟩
  cases r with
  | ok b => exact ⟨fun h => congrArg _ (Except.ok.inj h), fun h => congrArg _ (Except.ok.inj h)⟩
  | error e => exact ⟨nofun, nofun⟩

theorem comesTo_pure (a : α) (s : Scene) : (pure a : Errand α).ComesTo s (a = ·) :=
  ⟨.ok a, rfl, fun b => by simp⟩

/-- What is read is what the world has under the name. -/
theorem course_readSource_bind (name : SourceName) (next : Source → Errand β) (s : Scene) :
    (readSource name >>= next).course s = (next (s.source name)).course s := rfl

/-- Errands without a mark, one after the other, are one. -/
theorem ComesTo.bind {q : α → β → Prop} (h : e.ComesTo s p)
    (hnext : ∀ a, p a → (next a).ComesTo s (q a)) :
    (e >>= next).ComesTo s fun b => ∃ a, p a ∧ q a b := by
  obtain ⟨result, hcourse, hresult⟩ := h
  rw [ComesTo, Errand.course_bind, hcourse]
  cases result with
  | ok a =>
    -- The first errand has one result at most, so what the second comes to hangs on that alone.
    obtain ⟨r, hr, hb⟩ := hnext a ((hresult a).mp rfl)
    refine ⟨r, hr, fun b => (hb b).trans ⟨fun hq => ⟨a, (hresult a).mp rfl, hq⟩, ?_⟩⟩
    rintro ⟨a', ha', hq⟩
    obtain rfl : a = a' := Except.ok.inj ((hresult a').mpr ha')
    exact hq
  | error t =>
    refine ⟨.error t, rfl, fun b => ⟨nofun, ?_⟩⟩
    rintro ⟨a, ha, -⟩
    cases (hresult a).mpr ha

/-- The results are those that have the property. -/
theorem ComesTo.congr {q : α → Prop} (h : e.ComesTo s p) (hpq : ∀ a, p a ↔ q a) :
    e.ComesTo s q := by
  obtain ⟨result, hcourse, hresult⟩ := h
  exact ⟨result, hcourse, fun a => (hresult a).trans (hpq a)⟩

/-- The results of an errand without a mark are the same wherever they are told. -/
theorem ComesTo.unique (h : e.ComesTo s p) {a b : α} (ha : p a) (hb : p b) : a = b := by
  obtain ⟨result, -, hresult⟩ := h
  exact Except.ok.inj (((hresult a).mpr ha).symm.trans ((hresult b).mpr hb))

end Errand

end DatalogClient
