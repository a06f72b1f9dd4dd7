import DatalogClient.Document.Validation
import DatalogClient.Submission

/-!
# Building queries

A builder holds a document and changes it step by step. What is to be found is settled when the
builder is made; clauses are added to those there, inputs and column names replace those there.
Only queries that find terms have column names.

Building takes the document as it stands. Running adds the arguments for good and submits the
document once.

## Main definitions

* `Builder` — a document under construction
* `Builder.find`, `Builder.pullOne`, `Builder.pullMany` — how builders begin
* `Builder.addClauses`, `Builder.withInputs`, `Builder.withKeys` — the steps
* `Builder.build`, `Builder.buildWith`, `Builder.run`, `Builder.runWith` — how they end
* `Builder.runM`, `Builder.runWithM` — the same for submitters that do more than answer
-/

namespace DatalogClient

/-- What a query is about. -/
inductive QueryKind where
  | find
  | pull
deriving DecidableEq

/-- A query under construction. -/
structure Builder (kind : QueryKind) where
  document : Document

/-- Whoever executes documents: the answer to each. -/
abbrev Submitter := Document → Except SubmitError Json

/-- Whoever executes documents and has something to do for it. -/
abbrev SubmitterM (m : Type → Type) := Document → m (Except SubmitError Json)

namespace Builder

variable {kind : QueryKind}

/-- A query that finds terms. -/
def find (terms : List FindTerm) : Builder .find := ⟨{ find := terms }⟩

/-- A query that pulls one entity. -/
def pullOne (entity : String) (pattern : List AttrSpec) : Builder .pull :=
  ⟨{ find := [.pull ⟨pattern, entity⟩, .single] }⟩

/-- A query that pulls every entity. -/
def pullMany (entity : String) (pattern : List AttrSpec) : Builder .pull :=
  ⟨{ find := [.pull ⟨pattern, entity⟩, .many] }⟩

/-- Add items to those that are there. -/
def extend {α : Type} (present : Option (List α)) (items : List α) : Option (List α) :=
  some (present.getD [] ++ items)

/-- Add clauses. -/
def addClauses (b : Builder kind) (clauses : List Clause) : Builder kind :=
  ⟨{ b.document with clauses := extend b.document.clauses clauses }⟩

/-- Replace the inputs. -/
def withInputs (b : Builder kind) (inputs : List Binding) : Builder kind :=
  ⟨{ b.document with inputs := some inputs }⟩

/-- Replace the names of the columns. -/
def withKeys (b : Builder .find) (keys : List String) : Builder .find :=
  ⟨{ b.document with keys := some keys }⟩

/-- The document as it stands. -/
def build (b : Builder kind) : Document := b.document

/-- The document with just these arguments, if there are some. -/
def buildWith (b : Builder kind) (args : List Value) : Document :=
  if args.isEmpty then b.build else b.document.withArgs args

/-- Add arguments. Where none are added, none are missed either. -/
def addArgs (b : Builder kind) (args : List Value) : Builder kind :=
  if args.isEmpty then b else ⟨{ b.document with args := extend b.document.args args }⟩

/-- Add arguments, then submit the document, whatever is done to execute it. -/
def runWithM {m : Type → Type} [Monad m] (b : Builder kind) (args : List Value)
    (submit : SubmitterM m) : m (Builder kind × Except SubmitError Json) := do
  let b := b.addArgs args
  let answer ← submit b.document
  return (b, answer)

/-- Submit the document, whatever is done to execute it. -/
def runM {m : Type → Type} [Monad m] (b : Builder kind) (submit : SubmitterM m) :
    m (Builder kind × Except SubmitError Json) :=
  b.runWithM [] submit

/-- Add arguments, then submit the document. -/
def runWith (b : Builder kind) (args : List Value) (submit : Submitter) :
    Builder kind × Except SubmitError Json :=
  Id.run (b.runWithM args submit)

/-- Submit the document. -/
def run (b : Builder kind) (submit : Submitter) : Builder kind × Except SubmitError Json :=
  Id.run (b.runM submit)

/-- Check the document. -/
def validate (b : Builder kind) : Except Document.Invalid Unit := b.document.validate

end Builder

end DatalogClient
