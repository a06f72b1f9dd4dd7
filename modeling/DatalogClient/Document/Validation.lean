import DatalogClient.Document.Spelling
import DatalogClient.Document.Wire
import DatalogClient.Outline.Issues

/-!
# Checking query documents

A document that can be read may still be nonsense. Checking looks at every part of it on its own
and finds all issues; it knows nothing of attributes that exist.

Each part has an outline: remarks about the part itself, and the outlines of the parts below it.
The issues of a document are those of its outline.

## Main definitions

* `Document.outline` — the parts of a document with what is to be said about them
* `Document.issues`, `Document.validate` — all issues, and whether there are any
* `ValidateError`, `Document.checkText` — reading and checking a text
-/

namespace DatalogClient

open Spelling

/-- A remark about the node itself. -/
def here (message : String) : Remark := { message }

/-- A remark, if a condition holds. -/
def remarkIf (condition : Bool) (remark : Remark) : List Remark :=
  if condition then [remark] else []

/-- A text between backticks. -/
def ticked (text : String) : String := "`" ++ text ++ "`"

/-- A name that is no name of an attribute. -/
def unqualified (attr : String) : String :=
  "expected a qualified attribute name, got " ++ ticked attr

/-! ### Pull patterns -/

/-- Remarks about an option: on its attribute, on an empty name, on a limit of zero. -/
def AttrOption.remarks (o : AttrOption) : List Remark :=
  remarkIf (!isQualifiedAttr o.attr) ⟨.index 0, unqualified o.attr⟩ ++
    match o.kind with
    | .renamed name => remarkIf (name == "") ⟨.index 2, "alias must not be empty"⟩
    | .limit count => remarkIf (count == 0) ⟨.index 2, "limit must be positive"⟩
    | .fallback _ => []

/-- Remarks about one entry of a map spec. -/
def MapSpec.entryRemarks (entry : String × MapTarget) : List Remark :=
  remarkIf (!isQualifiedAttr entry.1) ⟨.key entry.1, unqualified entry.1⟩ ++
    match entry.2 with
    | .pattern specs =>
      remarkIf specs.isEmpty ⟨.key entry.1, "nested pattern must not be empty"⟩
    | .recursion (.depth count) =>
      remarkIf (count == 0) ⟨.key entry.1, "recursion limit must be positive"⟩
    | .recursion .unbounded => []

/-- Remarks about a spec, apart from the patterns that it holds. -/
def AttrSpec.remarks : AttrSpec → List Remark
  | .name attr => remarkIf (!isQualifiedAttr attr) (here (unqualified attr))
  | .wildcard => []
  | .option o => o.remarks
  | .map (.attrs entries) =>
    remarkIf entries.isEmpty (here "map spec must name at least one attribute") ++
      entries.flatMap MapSpec.entryRemarks
  | .map (.keyed key selector) =>
    remarkIf (!isQualifiedAttr key.name) ⟨.field "key", unqualified key.name⟩ ++
      remarkIf selector.isEmpty ⟨.field "selector", "selector must not be empty"⟩

mutual

/-- The outline of a spec. -/
def AttrSpec.outline : AttrSpec → Outline (List Remark)
  | .name attr => .node (AttrSpec.name attr).remarks []
  | .wildcard => .node AttrSpec.wildcard.remarks []
  | .option o => .node (AttrSpec.option o).remarks []
  | .map spec => .node (AttrSpec.map spec).remarks (MapSpec.steps spec)

/-- The patterns that a map spec holds. -/
def MapSpec.steps : MapSpec → List (OutlineStep (List Remark))
  | .attrs entries => MapSpec.entrySteps entries
  | .keyed _ selector => [.within (.field "selector") (AttrSpec.patternSteps 0 selector)]

/-- The patterns of entries. -/
def MapSpec.entrySteps : List (String × MapTarget) → List (OutlineStep (List Remark))
  | [] => []
  | (name, target) :: rest => MapTarget.steps name target ++ MapSpec.entrySteps rest

/-- The pattern of a target, if it is one. -/
def MapTarget.steps (name : String) : MapTarget → List (OutlineStep (List Remark))
  | .pattern specs => [.within (.key name) (AttrSpec.patternSteps 0 specs)]
  | .recursion _ => []

/-- The specs of a pattern from an index on. -/
def AttrSpec.patternSteps (index : Nat) : List AttrSpec → List (OutlineStep (List Remark))
  | [] => []
  | spec :: rest =>
    .visit spec.outline (.index index) :: AttrSpec.patternSteps (index + 1) rest

end

/-- The outline of a pull. -/
def Pull.outline (p : Pull) : Outline (List Remark) :=
  .node
    (remarkIf (!isLogicVar p.entity)
        ⟨.field "entity", "expected a logic variable, got " ++ ticked p.entity⟩ ++
      remarkIf p.pattern.isEmpty ⟨.field "pull", "pull pattern must not be empty"⟩)
    [.within (.field "pull") (AttrSpec.patternSteps 0 p.pattern)]

/-! ### Terms -/

/-- The mark at an index ends a pair of a pull or a variable and the mark. -/
def FindTerm.endsPair (find : List FindTerm) (index : Nat) : Bool :=
  index == 1 && find.length == 2 && match find with
    | .pull _ :: _ => true
    | .var _ :: _ => true
    | _ => false

/-- A mark that stands elsewhere. -/
def FindTerm.strayMark (mark : String) : String :=
  "cardinality marker " ++ ticked mark ++
    " must directly follow a single pull expression or variable and end find"

/-- The outline of the term at an index of all terms. -/
def FindTerm.outline (find : List FindTerm) (index : Nat) : FindTerm → Outline (List Remark)
  | .var text =>
    .node (remarkIf (!isLogicVar text && !isAggregate text)
      (here ("expected a logic variable or aggregate, got " ++ ticked text))) []
  | .pull p => .node [] [.visit p.outline .nowhere]
  | .single => .node (remarkIf (!endsPair find index) (here (strayMark singleMark))) []
  | .many => .node (remarkIf (!endsPair find index) (here (strayMark manyMark))) []

/-! ### Bindings -/

/-- The outline of the variables of a binding. -/
def Binding.varsOutline (vars : List String) : Outline (List Remark) :=
  .node (vars.zipIdx.flatMap fun (var, i) =>
    remarkIf (!isVarOrBlank var)
      ⟨.index i, "expected a logic variable or `_`, got " ++ ticked var⟩) []

/-- A binding of no variables. -/
def Binding.emptyRemark (vars : List String) : List Remark :=
  remarkIf vars.isEmpty (here "binding must name at least one variable")

/-- The outline of a binding. The variables of a relation stand one level deeper. -/
def Binding.outline : Binding → Outline (List Remark)
  | .scalar var =>
    .node (remarkIf (!isInputVar var)
      (here ("expected a logic, source or rules variable, got " ++ ticked var))) []
  | .collection var =>
    .node (remarkIf (!isLogicVar var)
      ⟨.index 0, "expected a logic variable, got " ++ ticked var⟩) []
  | .tuple vars => .node (emptyRemark vars) [.visit (varsOutline vars) .nowhere]
  | .relation vars => .node (emptyRemark vars) [.visit (varsOutline vars) (.index 0)]

/-! ### Clauses -/

namespace Clause

/-- A pattern that names its source has every position one later. -/
def sourceOffset : List Value → Nat
  | .text text :: _ => if isSourceVar text then 1 else 0
  | _ => 0

/-- Remarks on the attribute of a pattern, which stands at an index. -/
def attrRemarks (index : Nat) : Value → List Remark
  | .text text =>
    remarkIf (!isVarOrBlank text && !isQualifiedAttr text) ⟨.index index, unqualified text⟩
  | .typed ⟨.keyword, _⟩ => []
  | .int _ => []
  | _ => [⟨.index index, "attribute position must be an attribute name or a logic variable"⟩]

/-- Remarks on the transaction of a pattern, which stands at an index. -/
def transactionRemarks (index : Nat) (value : Value) : List Remark :=
  let valid := match value with
    | .text text => isVarOrBlank text
    | .int _ => true
    | _ => false
  remarkIf (!valid)
    ⟨.index index, "transaction position must be a logic variable, `_` or an id"⟩

/-- Remarks on the operation of a pattern, which stands at an index. -/
def operationRemarks (index : Nat) (value : Value) : List Remark :=
  let valid := match value with
    | .text text => isVarOrBlank text
    | .bool _ => true
    | _ => false
  remarkIf (!valid)
    ⟨.index index, "operation position must be a logic variable, `_` or a boolean"⟩

/-- Remarks on a pattern. It has two to five positions, not counting the source. -/
def patternRemarks (items : List Value) : List Remark :=
  let offset := sourceOffset items
  let positions := items.drop offset
  if positions.length < 2 || 5 < positions.length then
    [here ("pattern must have 2 to 5 positions, got " ++ toString positions.length)]
  else
    (positions[1]?.toList.flatMap (attrRemarks (offset + 1))) ++
      (positions[3]?.toList.flatMap (transactionRemarks (offset + 3))) ++
      (positions[4]?.toList.flatMap (operationRemarks (offset + 4)))

/-- The outline of a call. -/
def callOutline (call : Call) : Outline (List Remark) :=
  .node (remarkIf (call.name == "") ⟨.index 0, "function name must not be empty"⟩) []

/-- The outline of a clause. -/
def outline : Clause → Outline (List Remark)
  | .pattern items => .node (patternRemarks items) []
  | .predicate call => .node [] [.visit (callOutline call) (.index 0)]
  | .function call binding =>
    .node [] [.visit (callOutline call) (.index 0), .visit binding.outline (.index 1)]
  | .rule usage => .node (remarkIf (usage.name == "") (here "rule name must not be empty")) []

end Clause

/-! ### Documents -/

namespace Document

/-- Remarks on the names of columns, after some that were seen: they are not empty and no two are
the same. -/
def keyRemarks (seen : List String) : List String → List Remark
  | [] => []
  | key :: rest =>
    if key = "" then ⟨.field "keys", "key names must not be empty"⟩ :: keyRemarks seen rest
    else if seen.contains key then
      ⟨.field "keys", "duplicate key " ++ ticked key⟩ :: keyRemarks seen rest
    else keyRemarks (key :: seen) rest

/-- Remarks on a document, apart from its terms, inputs and clauses. -/
def remarks (d : Document) : List Remark :=
  remarkIf d.find.isEmpty ⟨.field "find", "find must contain at least one term"⟩ ++
  (match d.keys with
    | some keys =>
      remarkIf (keys.length != d.find.length)
        ⟨.field "keys", "expected " ++ toString d.find.length ++
          " keys to align with find, got " ++ toString keys.length⟩ ++
      keyRemarks [] keys
    | none => []) ++
  (match d.args, d.inputs with
    | some args, some inputs =>
      remarkIf (inputs.length < args.length)
        ⟨.field "args", toString args.length ++ " args supplied for " ++
          toString inputs.length ++ " input bindings"⟩
    | _, _ => [])

/-- The children in a field that may be absent. -/
def stepsIf {α : Type} (field : String) (outline : α → Outline (List Remark)) :
    Option (List α) → List (OutlineStep (List Remark))
  | some items => [.indexed field (items.map outline)]
  | none => []

/-- The outline of a document. -/
def outline (d : Document) : Outline (List Remark) :=
  .node d.remarks
    (.indexed "find" (d.find.mapIdx (FindTerm.outline d.find)) ::
      (stepsIf "in" Binding.outline d.inputs ++ stepsIf "where" Clause.outline d.clauses))

/-- All issues of a document. -/
def issues (d : Document) : List Issue := d.outline.issues

/-- A document that has issues. -/
structure Invalid where
  issues : List Issue

/-- A document without issues passes. -/
def validate (d : Document) : Except Invalid Unit :=
  if d.issues.isEmpty then .ok () else .error ⟨d.issues⟩

end Document

/-- Why a text is no valid document. -/
inductive ValidateError where
  | malformed (error : Document.Malformed)
  | invalid (error : Document.Invalid)

/-- The text of the error. -/
def ValidateError.message : ValidateError → String
  | malformed e => e.message
  | invalid e => "validation failed:\n" ++ Issue.display e.issues

namespace Document

/-- A document that passes. -/
def checked (d : Except Malformed Document) : Except ValidateError Document :=
  match d with
  | .error e => .error (.malformed e)
  | .ok d =>
    match d.validate with
    | .error e => .error (.invalid e)
    | .ok () => .ok d

/-- Read a text and check the document. -/
def checkText (text : String) : Except ValidateError Document := checked (ofText text)

/-- Read a JSON value and check the document. -/
def checkJson (j : Json) : Except ValidateError Document := checked (ofJson j)

end Document

end DatalogClient
