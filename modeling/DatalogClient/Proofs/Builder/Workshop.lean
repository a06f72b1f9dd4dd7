import DatalogClient.Builder
import Mathlib.Data.List.Induction

/-!
# Builders side by side

In a workshop any number of builders are made, copied and used in any order. Whatever is done to
the others, the document of a builder is told by its own lineage: how it began, and what was asked
of it since, a copy having the lineage of its original up to the copying. Clauses and arguments of
a lineage are joined, of inputs and of column names the last ones count, and to build a document
or to fail in submitting one leaves no trace.

## Main definitions

* `BuilderTask`, `BuilderYield` — what is asked of a builder, and what comes of it
* `Workshop.step`, `Workshop.after` — what is done in a workshop, step by step
* `Lineage`, `Workshop.lineages` — the tasks of each builder
* `Lineage.document` — the document of a lineage, told without a builder

## Main results

* `AnyBuilder.state_perform` — one task keeps a builder at the state of its lineage
* `Workshop.states_after` — after any history every builder is at the state of its lineage
* `Workshop.histories_determine_documents` — what the documents, the submissions and the built
  documents of a workshop are
-/

namespace DatalogClient

/-! ### Tasks -/

/-- What is asked of a builder. -/
inductive BuilderTask where
  | addClauses (clauses : List Clause)
  | withInputs (inputs : List Binding)
  | withKeys (keys : List String)
  | build
  | buildWith (args : List Value)
  | run (submit : Submitter)
  | runWith (args : List Value) (submit : Submitter)

/-- What comes of a task. -/
inductive BuilderYield where
  /-- The builder, for further tasks. -/
  | builder
  | built (document : Document)
  /-- The documents that were submitted, in order, and the answer. -/
  | answered (submitted : List Document) (answer : Except SubmitError Json)
  /-- There is no such builder, or it has no such task. -/
  | refused

/-- The submitter also notes down every document that it is given. -/
def Submitter.noting (submit : Submitter) : SubmitterM (StateM (List Document)) :=
  fun document => do
  modify (· ++ [document])
  return submit document

/-- A builder of either kind. -/
structure AnyBuilder where
  kind : QueryKind
  builder : Builder kind

namespace AnyBuilder

/-- The kind of a builder and its document. -/
def state (b : AnyBuilder) : QueryKind × Document := (b.kind, b.builder.document)

/-- Do what is asked of a builder. -/
def perform : AnyBuilder → BuilderTask → AnyBuilder × BuilderYield
  | ⟨kind, b⟩, .addClauses clauses => (⟨kind, b.addClauses clauses⟩, .builder)
  | ⟨kind, b⟩, .withInputs inputs => (⟨kind, b.withInputs inputs⟩, .builder)
  | ⟨.find, b⟩, .withKeys keys => (⟨.find, b.withKeys keys⟩, .builder)
  | ⟨.pull, b⟩, .withKeys _ => (⟨.pull, b⟩, .refused)
  | ⟨kind, b⟩, .build => (⟨kind, b⟩, .built b.build)
  | ⟨kind, b⟩, .buildWith args => (⟨kind, b⟩, .built (b.buildWith args))
  | ⟨kind, b⟩, .run submit =>
    let ((b, answer), submitted) := (b.runM submit.noting).run []
    (⟨kind, b⟩, .answered submitted answer)
  | ⟨kind, b⟩, .runWith args submit =>
    let ((b, answer), submitted) := (b.runWithM args submit.noting).run []
    (⟨kind, b⟩, .answered submitted answer)

end AnyBuilder

/-- How a builder begins. -/
inductive BuilderOrigin where
  | find (terms : List FindTerm)
  | pullOne (entity : String) (pattern : List AttrSpec)
  | pullMany (entity : String) (pattern : List AttrSpec)

namespace BuilderOrigin

/-- The builder that begins so. -/
def builder : BuilderOrigin → AnyBuilder
  | find terms => ⟨.find, .find terms⟩
  | pullOne entity pattern => ⟨.pull, .pullOne entity pattern⟩
  | pullMany entity pattern => ⟨.pull, .pullMany entity pattern⟩

/-- What is to be found. -/
def terms : BuilderOrigin → List FindTerm
  | find terms => terms
  | pullOne entity pattern => [.pull ⟨pattern, entity⟩, .single]
  | pullMany entity pattern => [.pull ⟨pattern, entity⟩, .many]

/-- The kind of the query. -/
def kind : BuilderOrigin → QueryKind
  | find _ => .find
  | pullOne _ _ => .pull
  | pullMany _ _ => .pull

end BuilderOrigin

/-! ### Workshops -/

/-- One thing that is done in a workshop. Builders go by the order in which they were made. -/
inductive WorkStep where
  | make (origin : BuilderOrigin)
  | clone (slot : Nat)
  | ask (slot : Nat) (task : BuilderTask)

/-- The builders of a workshop. -/
abbrev Workshop := List AnyBuilder

/-- Do one thing in a workshop. -/
def Workshop.step (w : Workshop) : WorkStep → Workshop × BuilderYield
  | .make origin => (w ++ [origin.builder], .builder)
  | .clone slot =>
    match w[slot]? with
    | some b => (w ++ [b], .builder)
    | none => (w, .refused)
  | .ask slot task =>
    match w[slot]? with
    | some b => (w.set slot (b.perform task).1, (b.perform task).2)
    | none => (w, .refused)

/-- The workshop after a history. -/
def Workshop.after (history : List WorkStep) : Workshop :=
  history.foldl (fun w s => (w.step s).1) []

/-! ### Lineages -/

/-- How a builder began, and what was asked of it since. -/
structure Lineage where
  origin : BuilderOrigin
  tasks : List BuilderTask := []

/-- The lineage with one more task. -/
def Lineage.extend (l : Lineage) (task : BuilderTask) : Lineage :=
  { l with tasks := l.tasks ++ [task] }

/-- The lineages of the builders after one more step. A copy has the lineage of its original. -/
def Lineage.afterStep (lineages : List Lineage) : WorkStep → List Lineage
  | .make origin => lineages ++ [{ origin }]
  | .clone slot =>
    match lineages[slot]? with
    | some l => lineages ++ [l]
    | none => lineages
  | .ask slot task =>
    match lineages[slot]? with
    | some l => lineages.set slot (l.extend task)
    | none => lineages

/-- The lineages of all builders. -/
def Workshop.lineages (history : List WorkStep) : List Lineage :=
  history.foldl Lineage.afterStep []

namespace BuilderTask

/-- Clauses that are added. -/
@[simp] def clauses? : BuilderTask → Option (List Clause)
  | addClauses clauses => some clauses
  | _ => none

/-- Inputs that replace the others. -/
@[simp] def inputs? : BuilderTask → Option (List Binding)
  | withInputs inputs => some inputs
  | _ => none

/-- Column names that replace the others. -/
@[simp] def keys? : BuilderTask → Option (List String)
  | withKeys keys => some keys
  | _ => none

/-- Arguments that stay, if there are some. -/
@[simp] def args? : BuilderTask → Option (List Value)
  | runWith args _ => if args = [] then none else some args
  | _ => none

end BuilderTask

namespace Lineage

variable {α : Type}

/-- Several lists in one, unless there is none. -/
def joined (lists : List (List α)) : Option (List α) :=
  if lists.isEmpty then none else some lists.flatten

/-- The document of a lineage. -/
def document (l : Lineage) : Document where
  find := l.origin.terms
  keys := if l.origin.kind = .find then (l.tasks.filterMap BuilderTask.keys?).getLast? else none
  inputs := (l.tasks.filterMap BuilderTask.inputs?).getLast?
  clauses := joined (l.tasks.filterMap BuilderTask.clauses?)
  args := joined (l.tasks.filterMap BuilderTask.args?)

/-- The kind of a lineage and its document. -/
def state (l : Lineage) : QueryKind × Document := (l.origin.kind, l.document)

/-- One more list is what a builder adds to what is there. -/
theorem joined_concat (lists : List (List α)) (items : List α) :
    joined (lists ++ [items]) = Builder.extend (joined lists) items := by
  cases lists with
  | nil => simp [joined, Builder.extend]
  | cons first rest => simp [joined, Builder.extend]

end Lineage

/-! ### One task -/

/-- One more task tells on one section of the document at most. -/
theorem Lineage.document_extend (l : Lineage) (task : BuilderTask) :
    (l.extend task).document =
      match task with
      | .addClauses clauses =>
        { l.document with clauses := Builder.extend l.document.clauses clauses }
      | .withInputs inputs => { l.document with inputs := some inputs }
      | .withKeys keys =>
        if l.origin.kind = .find then { l.document with keys := some keys } else l.document
      | .runWith args _ =>
        if args = [] then l.document
        else { l.document with args := Builder.extend l.document.args args }
      | _ => l.document := by
  simp only [document, extend, List.filterMap_append, List.filterMap_cons, List.filterMap_nil]
  cases task with
  | addClauses clauses => simp [joined_concat]
  | withInputs inputs => simp
  | withKeys keys => by_cases hkind : l.origin.kind = .find <;> simp [hkind]
  | build => simp
  | buildWith args => simp
  | run submit => simp
  | runWith args submit => by_cases hargs : args = [] <;> simp [hargs, joined_concat]

namespace Builder

variable {kind : QueryKind}

/-- Where arguments are added to a document, none are added if there are none. -/
theorem document_addArgs (b : Builder kind) (args : List Value) :
    (b.addArgs args).document =
      if args = [] then b.document
      else { b.document with args := extend b.document.args args } := by
  by_cases hargs : args = []
  · simp [addArgs, hargs]
  · simp [addArgs, hargs]

end Builder

namespace AnyBuilder

/-- To build is to show the document. -/
theorem perform_build (b : AnyBuilder) : b.perform .build = (b, .built b.builder.document) := rfl

/-- To build with arguments is to show the document with them instead of its own. -/
theorem perform_buildWith (b : AnyBuilder) (args : List Value) :
    b.perform (.buildWith args) = (b, .built (if args = [] then b.builder.document
      else { b.builder.document with args := some args })) := by
  by_cases hargs : args = []
  · subst hargs
    rfl
  · have hbuilt : b.builder.buildWith args = { b.builder.document with args := some args } := by
      simp [Builder.buildWith, Document.withArgs, hargs]
    rw [if_neg hargs, ← hbuilt]
    rfl

/-- To run is to run with no arguments. -/
theorem perform_run (b : AnyBuilder) (submit : Submitter) :
    b.perform (.run submit) = b.perform (.runWith [] submit) := rfl

/-- The one document that a run submits is the one that the builder is left with. -/
theorem yield_runWith (b : AnyBuilder) (args : List Value) (submit : Submitter) :
    (b.perform (.runWith args submit)).2 =
      .answered [(b.perform (.runWith args submit)).1.builder.document]
        (submit (b.perform (.runWith args submit)).1.builder.document) := rfl

end AnyBuilder

/-- A builder begins at the state of its lineage. -/
theorem BuilderOrigin.state_builder (origin : BuilderOrigin) :
    origin.builder.state = Lineage.state { origin } := by
  cases origin <;> rfl

/-- A task takes a builder to the state to which it takes the lineage. -/
theorem AnyBuilder.state_perform {b : AnyBuilder} {l : Lineage} (h : b.state = l.state)
    (task : BuilderTask) : (b.perform task).1.state = (l.extend task).state := by
  obtain ⟨kind, b⟩ := b
  obtain ⟨hkind, hdocument⟩ := Prod.mk.inj h
  have hstate : (l.extend task).state = (l.origin.kind, (l.extend task).document) := rfl
  rw [hstate, Lineage.document_extend, ← hkind, ← hdocument]
  cases task with
  | withKeys keys => cases kind <;> rfl
  | runWith args submit => exact congrArg (Prod.mk kind) (b.document_addArgs args)
  | addClauses clauses => rfl
  | withInputs inputs => rfl
  | build => rfl
  | buildWith args => rfl
  | run submit => rfl

/-! ### Histories -/

namespace Workshop

@[simp] theorem after_concat (history : List WorkStep) (s : WorkStep) :
    after (history ++ [s]) = ((after history).step s).1 := by
  rw [after, List.foldl_append]
  rfl

@[simp] theorem lineages_concat (history : List WorkStep) (s : WorkStep) :
    lineages (history ++ [s]) = Lineage.afterStep (lineages history) s := by
  rw [lineages, List.foldl_append]
  rfl

variable {w : Workshop} {ls : List Lineage}

/-- Builders and lineages that agree in their states are found under the same numbers. -/
theorem found_cases (h : w.map AnyBuilder.state = ls.map Lineage.state) (slot : Nat) :
    w[slot]? = none ∧ ls[slot]? = none ∨
      ∃ b l, w[slot]? = some b ∧ ls[slot]? = some l ∧ b.state = l.state := by
  have hsame : w[slot]?.map AnyBuilder.state = ls[slot]?.map Lineage.state := by
    rw [← List.getElem?_map, h, List.getElem?_map]
  cases hb : w[slot]? with
  | none =>
    rw [hb, Option.map_none, eq_comm, Option.map_eq_none_iff] at hsame
    exact .inl ⟨rfl, hsame⟩
  | some b =>
    rw [hb, Option.map_some, eq_comm, Option.map_eq_some_iff] at hsame
    obtain ⟨l, hl, hstate⟩ := hsame
    exact .inr ⟨b, l, rfl, hl, hstate.symm⟩

/-- One step keeps all builders at the states of their lineages. -/
theorem states_step (h : w.map AnyBuilder.state = ls.map Lineage.state) (s : WorkStep) :
    (w.step s).1.map AnyBuilder.state = (Lineage.afterStep ls s).map Lineage.state := by
  cases s with
  | make origin =>
    simp only [step, Lineage.afterStep, List.map_append, h, List.map_singleton,
      BuilderOrigin.state_builder]
  | clone slot =>
    rcases found_cases h slot with ⟨hb, hl⟩ | ⟨b, l, hb, hl, hstate⟩
    · simp only [step, Lineage.afterStep, hb, hl, h]
    · simp only [step, Lineage.afterStep, hb, hl, List.map_append, h, List.map_singleton, hstate]
  | ask slot task =>
    rcases found_cases h slot with ⟨hb, hl⟩ | ⟨b, l, hb, hl, hstate⟩
    · simp only [step, Lineage.afterStep, hb, hl, h]
    · simp only [step, Lineage.afterStep, hb, hl, List.map_set, h,
        AnyBuilder.state_perform hstate task]

/-- After any history every builder is at the state of its lineage. -/
theorem states_after (history : List WorkStep) :
    (after history).map AnyBuilder.state = (lineages history).map Lineage.state := by
  induction history using List.reverseRecOn with
  | nil => rfl
  | append_singleton history s ih =>
    rw [after_concat, lineages_concat]
    exact states_step ih s

/-- A query that began as a pull is one. -/
theorem isPull_of_kind {b : AnyBuilder} {l : Lineage} (h : b.state = l.state)
    (hkind : b.kind = .pull) : b.builder.document.isPull = true := by
  obtain ⟨horigin, hdocument⟩ := Prod.mk.inj h
  rw [hdocument]
  obtain ⟨origin, tasks⟩ := l
  cases origin with
  | find terms => cases hkind.symm.trans horigin
  | pullOne entity pattern => rfl
  | pullMany entity pattern => rfl

/-- What a workshop holds and yields is told by lineages alone. Every builder is at the state of its
own one, and pulls stay pulls. To build changes no builder and yields the document of the lineage,
with just the given arguments if there are some. Every run submits one document, which is that of
the builder after it, with the arguments of the run. -/
theorem histories_determine_documents (history : List WorkStep) :
    (∀ slot : Nat, (after history)[slot]?.map AnyBuilder.state =
        (lineages history)[slot]?.map Lineage.state) ∧
      (∀ b ∈ after history, b.kind = .pull → b.builder.document.isPull = true) ∧
      ∀ (slot : Nat) (l : Lineage), (lineages history)[slot]? = some l →
        (after history).step (.ask slot .build) = (after history, .built l.document) ∧
        (∀ args, (after history).step (.ask slot (.buildWith args)) =
          (after history,
            .built (if args = [] then l.document else { l.document with args := some args }))) ∧
        (∀ submit, ∃ b, (after (history ++ [.ask slot (.run submit)]))[slot]? = some b ∧
          ((after history).step (.ask slot (.run submit))).2 =
            .answered [b.builder.document] (submit b.builder.document)) ∧
        ∀ args submit, ∃ b,
          (after (history ++ [.ask slot (.runWith args submit)]))[slot]? = some b ∧
          ((after history).step (.ask slot (.runWith args submit))).2 =
            .answered [b.builder.document] (submit b.builder.document) := by
  have hstates := states_after history
  refine ⟨?_, ?_, ?_⟩
  · intro slot
    rw [← List.getElem?_map, hstates, List.getElem?_map]
  · intro b hb hkind
    have hmem : b.state ∈ (lineages history).map Lineage.state := by
      rw [← hstates]
      exact List.mem_map_of_mem hb
    obtain ⟨l, -, hstate⟩ := List.mem_map.mp hmem
    exact isPull_of_kind hstate.symm hkind
  · intro slot l hl
    rcases found_cases hstates slot with ⟨-, hnone⟩ | ⟨b, l', hb, hsome, hstate⟩
    · cases hnone.symm.trans hl
    obtain rfl : l = l' := Option.some.inj (hl.symm.trans hsome)
    have hdocument : b.builder.document = l.document := (Prod.mk.inj hstate).2
    have hslot : slot < (after history).length := (List.getElem?_eq_some_iff.mp hb).1
    have hask : ∀ task, (after history).step (.ask slot task) =
        ((after history).set slot (b.perform task).1, (b.perform task).2) := by
      intro task
      rw [step, hb]
    have hkept : (after history).set slot b = after history := by
      rw [← (List.getElem?_eq_some_iff.mp hb).2, List.set_getElem_self]
    refine ⟨?_, ?_, ?_, ?_⟩
    · rw [hask, AnyBuilder.perform_build, hkept, hdocument]
    · intro args
      rw [hask, AnyBuilder.perform_buildWith, hkept, hdocument]
    · intro submit
      refine ⟨(b.perform (.run submit)).1, ?_, ?_⟩
      · rw [after_concat, hask, List.getElem?_set_self hslot]
      · rw [hask, AnyBuilder.perform_run, AnyBuilder.yield_runWith]
    · intro args submit
      refine ⟨(b.perform (.runWith args submit)).1, ?_, ?_⟩
      · rw [after_concat, hask, List.getElem?_set_self hslot]
      · rw [hask, AnyBuilder.yield_runWith]

/-- A builder whose submission fails, a copy of it, a step on each of the two, and a pull that is
asked for what it cannot do. -/
def copying : List WorkStep :=
  [.make (.find [.var "?e"]),
    .ask 0 (.runWith [.int 1] fun _ => .error (.transport "refused")),
    .clone 0,
    .ask 1 (.withKeys ["k"]),
    .ask 0 (.addClauses []),
    .make (.pullOne "?e" [.wildcard]),
    .ask 2 (.withKeys ["k"])]

/-- The copy has the argument of the failed run and the names that it was given itself, and no
clauses. -/
theorem copy_built :
    (lineages copying)[1]? =
        some ⟨.find [.var "?e"],
          [.runWith [.int 1] fun _ => .error (.transport "refused"), .withKeys ["k"]]⟩ ∧
      (after copying).step (.ask 1 .build) =
        (after copying,
          .built { find := [.var "?e"], keys := some ["k"], args := some [.int 1] }) :=
  ⟨rfl, ((histories_determine_documents copying).2.2 1 _ rfl).1⟩

end Workshop

end DatalogClient
