import DatalogClient.Document.Validation
import DatalogClient.Proofs.Outline.Silence
import DatalogClient.Proofs.Pull.Inside
import Mathlib.Data.List.Nodup

/-!
# What passes the check

The check tells remarks on the parts of a document; what a document must be like is told here
without it, part by part. A document passes exactly if it is like that.

## Main definitions

* `AttrSpec.WellFormed`, `Pull.WellFormed`, `Binding.WellFormed`, `Clause.WellFormed` — parts that
  make sense
* `Document.WellFormed` — documents that make sense

## Main results

* `Document.validate_eq_ok_iff` — exactly the well-formed documents pass
-/

namespace DatalogClient

open Spelling

@[simp] theorem remarkIf_eq_nil_iff (condition : Bool) (remark : Remark) :
    remarkIf condition remark = [] ↔ condition = false := by
  cases condition <;> simp [remarkIf]

/-! ### Pull patterns -/

/-- A new name is not empty, and a limit is not zero. -/
def OptionKind.WellFormed : OptionKind → Prop
  | .renamed name => name ≠ ""
  | .limit count => count ≠ 0
  | .fallback _ => True

/-- A pattern is not empty, and a depth is not zero. -/
def MapTarget.WellFormed : MapTarget → Prop
  | .pattern specs => specs ≠ []
  | .recursion (.depth count) => count ≠ 0
  | .recursion .unbounded => True

theorem MapSpec.entryRemarks_eq_nil_iff (entry : String × MapTarget) :
    MapSpec.entryRemarks entry = [] ↔
      isQualifiedAttr entry.1 = true ∧ entry.2.WellFormed := by
  match entry with
  | (name, .pattern specs) => simp [entryRemarks, MapTarget.WellFormed]
  | (name, .recursion (.depth count)) => simp [entryRemarks, MapTarget.WellFormed]
  | (name, .recursion .unbounded) => simp [entryRemarks, MapTarget.WellFormed]

namespace AttrSpec

/-- The condition on a spec, apart from the specs inside it: attributes are qualified, and nothing
that is followed is empty. Of the key of a selector only the attribute matters. -/
def WellFormedHere : AttrSpec → Prop
  | .name attr => isQualifiedAttr attr = true
  | .wildcard => True
  | .option o => isQualifiedAttr o.attr = true ∧ o.kind.WellFormed
  | .map (.attrs entries) =>
    entries ≠ [] ∧ ∀ entry ∈ entries, isQualifiedAttr entry.1 = true ∧ entry.2.WellFormed
  | .map (.keyed key selector) => isQualifiedAttr key.name = true ∧ selector ≠ []

/-- The spec and every spec inside it make sense. -/
def WellFormed (s : AttrSpec) : Prop := s.Every WellFormedHere

/-- A spec is free of remarks exactly if it makes sense, apart from the specs inside it. -/
theorem remarks_eq_nil_iff (s : AttrSpec) : s.remarks = [] ↔ s.WellFormedHere := by
  match s with
  | .name attr => simp [remarks, WellFormedHere]
  | .wildcard => simp [remarks, WellFormedHere]
  | .option ⟨attr, .renamed other⟩ =>
    simp [remarks, AttrOption.remarks, WellFormedHere, OptionKind.WellFormed]
  | .option ⟨attr, .limit count⟩ =>
    simp [remarks, AttrOption.remarks, WellFormedHere, OptionKind.WellFormed]
  | .option ⟨attr, .fallback value⟩ =>
    simp [remarks, AttrOption.remarks, WellFormedHere, OptionKind.WellFormed]
  | .map (.attrs entries) =>
    rw [remarks, WellFormedHere, List.append_eq_nil_iff, List.flatMap_eq_nil_iff]
    simp only [MapSpec.entryRemarks_eq_nil_iff, remarkIf_eq_nil_iff, List.isEmpty_eq_false_iff]
  | .map (.keyed key selector) =>
    simp [remarks, WellFormedHere]

/-! #### What lies inside -/

theorem silent_patternSteps (index : Nat) (specs : List AttrSpec) :
    (∀ step ∈ patternSteps index specs, step.Silent) ↔ ∀ spec ∈ specs, spec.outline.Silent := by
  induction specs generalizing index with
  | nil => simp [patternSteps]
  | cons spec rest ih => simp [patternSteps, ih]

theorem silent_targetSteps (name : String) (target : MapTarget) :
    (∀ step ∈ target.steps name, step.Silent) ↔ ∀ spec ∈ target.specs, spec.outline.Silent := by
  cases target with
  | pattern specs =>
    rw [← silent_patternSteps 0]
    simp [MapTarget.steps, MapTarget.specs]
  | recursion limit => simp [MapTarget.steps, MapTarget.specs]

theorem silent_entrySteps (entries : List (String × MapTarget)) :
    (∀ step ∈ MapSpec.entrySteps entries, step.Silent) ↔
      ∀ entry ∈ entries, ∀ spec ∈ entry.2.specs, spec.outline.Silent := by
  induction entries with
  | nil => simp [MapSpec.entrySteps]
  | cons entry rest ih =>
    obtain ⟨name, target⟩ := entry
    simp only [MapSpec.entrySteps, List.mem_append, or_imp, forall_and, ih, silent_targetSteps,
      List.mem_cons, forall_eq]

/-- The outline of a spec is silent exactly if the spec makes sense at every depth. -/
theorem silent_outline_iff (s : AttrSpec) : s.outline.Silent ↔ s.WellFormed := by
  induction s using nestedInduction with
  | name attr => simp [outline, WellFormed, Every, remarks_eq_nil_iff]
  | wildcard => simp [outline, WellFormed, Every, remarks_eq_nil_iff]
  | option o => simp [outline, WellFormed, Every, remarks_eq_nil_iff]
  | attrs entries ih =>
    rw [outline, Outline.silent_node, remarks_eq_nil_iff, MapSpec.steps, silent_entrySteps,
      WellFormed, every_attrs]
    refine and_congr_right fun _ => ?_
    refine forall₂_congr fun entry hentry => ?_
    exact forall₂_congr fun spec hspec => ih entry hentry spec hspec
  | keyed key selector ih =>
    rw [outline, Outline.silent_node, remarks_eq_nil_iff, MapSpec.steps, WellFormed, every_keyed]
    simp only [List.mem_singleton, forall_eq, OutlineStep.silent_within, silent_patternSteps]
    exact and_congr_right fun _ => forall₂_congr ih

end AttrSpec

/-- A pull is about a logic variable, and its pattern is not empty and makes sense. -/
def Pull.WellFormed (p : Pull) : Prop :=
  isLogicVar p.entity = true ∧ p.pattern ≠ [] ∧ ∀ spec ∈ p.pattern, spec.WellFormed

theorem Pull.silent_outline_iff (p : Pull) : p.outline.Silent ↔ p.WellFormed := by
  rw [Pull.outline, Outline.silent_node, Pull.WellFormed]
  simp only [List.append_eq_nil_iff, remarkIf_eq_nil_iff, List.mem_singleton,
    forall_eq, OutlineStep.silent_within, AttrSpec.silent_patternSteps,
    AttrSpec.silent_outline_iff, List.isEmpty_eq_false_iff, Bool.not_eq_eq_eq_not, Bool.not_false,
    and_assoc, ne_eq]

/-! ### Terms -/

namespace FindTerm

/-- The mark at an index is the second of two terms, behind a pull or a variable. -/
def FollowsOne (find : List FindTerm) (index : Nat) : Prop :=
  index = 1 ∧ find.length = 2 ∧
    ((∃ p, find.head? = some (.pull p)) ∨ ∃ text, find.head? = some (.var text))

/-- What the term at an index of all terms must be like. -/
def WellFormedAt (find : List FindTerm) (index : Nat) : FindTerm → Prop
  | var text => isLogicVar text = true ∨ isAggregate text = true
  | pull p => p.WellFormed
  | single => FollowsOne find index
  | many => FollowsOne find index

theorem endsPair_iff (find : List FindTerm) (index : Nat) :
    endsPair find index = true ↔ FollowsOne find index := by
  match find with
  | [] => simp [endsPair, FollowsOne]
  | .pull p :: rest => simp [endsPair, FollowsOne]
  | .var text :: rest => simp [endsPair, FollowsOne]
  | .single :: rest => simp [endsPair, FollowsOne]
  | .many :: rest => simp [endsPair, FollowsOne]

theorem silent_outline_iff (find : List FindTerm) (index : Nat) (t : FindTerm) :
    (t.outline find index).Silent ↔ t.WellFormedAt find index := by
  cases t with
  | var text => simp [outline, WellFormedAt, or_iff_not_imp_left]
  | pull p => simp [outline, WellFormedAt, Pull.silent_outline_iff]
  | single => simp [outline, WellFormedAt, ← endsPair_iff]
  | many => simp [outline, WellFormedAt, ← endsPair_iff]

end FindTerm

/-! ### Bindings -/

namespace Binding

/-- The variables of a binding are of a kind that its form admits, and there are some. -/
def WellFormed : Binding → Prop
  | scalar var => isInputVar var = true
  | collection var => isLogicVar var = true
  | tuple vars => vars ≠ [] ∧ ∀ var ∈ vars, isVarOrBlank var = true
  | relation vars => vars ≠ [] ∧ ∀ var ∈ vars, isVarOrBlank var = true

theorem silent_varsOutline_iff (vars : List String) :
    (varsOutline vars).Silent ↔ ∀ var ∈ vars, isVarOrBlank var = true := by
  rw [varsOutline, Outline.silent_node, List.flatMap_eq_nil_iff]
  simp only [remarkIf_eq_nil_iff, Bool.not_eq_false', List.not_mem_nil, false_implies,
    implies_true, and_true]
  rw [← List.forall_mem_map (f := Prod.fst) (P := fun var => isVarOrBlank var = true),
    List.zipIdx_map_fst]

theorem silent_outline_iff (b : Binding) : b.outline.Silent ↔ b.WellFormed := by
  cases b with
  | scalar var => simp [outline, WellFormed]
  | collection var => simp [outline, WellFormed]
  | tuple vars => simp [outline, WellFormed, emptyRemark, silent_varsOutline_iff]
  | relation vars => simp [outline, WellFormed, emptyRemark, silent_varsOutline_iff]

end Binding

/-! ### Clauses -/

namespace Clause

/-- What may stand for an attribute: a variable, a name of an attribute, or an id. -/
def IsAttribute : Value → Prop
  | .text text => isVarOrBlank text = true ∨ isQualifiedAttr text = true
  | .typed t => t.kind = .keyword
  | .int _ => True
  | _ => False

/-- What may stand for a transaction: a variable or an id. -/
def IsTransaction : Value → Prop
  | .text text => isVarOrBlank text = true
  | .int _ => True
  | _ => False

/-- What may stand for an operation: a variable or a truth value. -/
def IsOperation : Value → Prop
  | .text text => isVarOrBlank text = true
  | .bool _ => True
  | _ => False

/-- The literals of a pattern without the source that may stand before them. -/
def positions : List Value → List Value
  | .text text :: rest => if isSourceVar text then rest else .text text :: rest
  | items => items

/-- A pattern has two to five positions: an entity, an attribute, a value, a transaction and an
operation, behind a source if one is named. -/
structure WellFormedPattern (items : List Value) : Prop where
  two_le : 2 ≤ (positions items).length
  le_five : (positions items).length ≤ 5
  attr : ∀ v, (positions items)[1]? = some v → IsAttribute v
  transaction : ∀ v, (positions items)[3]? = some v → IsTransaction v
  operation : ∀ v, (positions items)[4]? = some v → IsOperation v

/-- A pattern has its positions, functions and rules have names, and bindings make sense. -/
def WellFormed : Clause → Prop
  | pattern items => WellFormedPattern items
  | predicate call => call.name ≠ ""
  | function call binding => call.name ≠ "" ∧ binding.WellFormed
  | rule usage => usage.name ≠ ""

theorem drop_sourceOffset (items : List Value) :
    items.drop (sourceOffset items) = positions items := by
  match items with
  | [] => rfl
  | .text text :: rest =>
    rw [sourceOffset, positions]
    split_ifs <;> rfl
  | .bool b :: rest => rfl
  | .int n :: rest => rfl
  | .float x :: rest => rfl
  | .typed t :: rest => rfl
  | .list inner :: rest => rfl

theorem attrRemarks_eq_nil_iff (index : Nat) (v : Value) :
    attrRemarks index v = [] ↔ IsAttribute v := by
  match v with
  | .text text => simp [attrRemarks, IsAttribute, or_iff_not_imp_left]
  | .typed ⟨.keyword, text⟩ => simp [attrRemarks, IsAttribute]
  | .typed ⟨.uuid, text⟩ => simp [attrRemarks, IsAttribute]
  | .typed ⟨.symbol, text⟩ => simp [attrRemarks, IsAttribute]
  | .typed ⟨.bigint, text⟩ => simp [attrRemarks, IsAttribute]
  | .typed ⟨.bigdec, text⟩ => simp [attrRemarks, IsAttribute]
  | .typed ⟨.instant, text⟩ => simp [attrRemarks, IsAttribute]
  | .typed ⟨.uri, text⟩ => simp [attrRemarks, IsAttribute]
  | .typed ⟨.bytes, text⟩ => simp [attrRemarks, IsAttribute]
  | .int n => simp [attrRemarks, IsAttribute]
  | .bool b => simp [attrRemarks, IsAttribute]
  | .float x => simp [attrRemarks, IsAttribute]
  | .list items => simp [attrRemarks, IsAttribute]

theorem transactionRemarks_eq_nil_iff (index : Nat) (v : Value) :
    transactionRemarks index v = [] ↔ IsTransaction v := by
  cases v <;> simp [transactionRemarks, IsTransaction]

theorem operationRemarks_eq_nil_iff (index : Nat) (v : Value) :
    operationRemarks index v = [] ↔ IsOperation v := by
  cases v <;> simp [operationRemarks, IsOperation]

theorem patternRemarks_eq_nil_iff (items : List Value) :
    patternRemarks items = [] ↔ WellFormedPattern items := by
  rw [patternRemarks]
  simp only [drop_sourceOffset]
  -- Remarks on a position are made only where the position is there.
  have hcollect : ∀ (position : Option Value) (remarks : Value → List Remark),
      position.toList.flatMap remarks = [] ↔ ∀ v, position = some v → remarks v = [] := by
    intro position remarks
    cases position <;> simp
  split_ifs with hlength
  · -- A pattern of the wrong length is remarked on as a whole, and on nothing else.
    refine iff_of_false (by simp) ?_
    intro h
    have htwo := h.two_le
    have hfive := h.le_five
    simp only [Bool.or_eq_true, decide_eq_true_eq] at hlength
    omega
  · simp only [Bool.or_eq_true, decide_eq_true_eq, not_or, Nat.not_lt] at hlength
    obtain ⟨htwo, hfive⟩ := hlength
    simp only [List.append_eq_nil_iff, hcollect, attrRemarks_eq_nil_iff,
      transactionRemarks_eq_nil_iff, operationRemarks_eq_nil_iff]
    constructor
    · intro h
      obtain ⟨⟨hattr, htransaction⟩, hoperation⟩ := h
      exact ⟨htwo, hfive, hattr, htransaction, hoperation⟩
    · intro h
      exact ⟨⟨h.attr, h.transaction⟩, h.operation⟩

theorem silent_callOutline_iff (call : Call) : (callOutline call).Silent ↔ call.name ≠ "" := by
  simp [callOutline]

theorem silent_outline_iff (c : Clause) : c.outline.Silent ↔ c.WellFormed := by
  cases c with
  | pattern items => simp [outline, WellFormed, patternRemarks_eq_nil_iff]
  | predicate call => simp [outline, WellFormed, silent_callOutline_iff]
  | function call binding =>
    simp [outline, WellFormed, silent_callOutline_iff, Binding.silent_outline_iff]
  | rule usage => simp [outline, WellFormed]

end Clause

/-! ### Documents -/

namespace Document

/-- A document asks for something, and all its parts make sense and fit each other. -/
structure WellFormed (d : Document) : Prop where
  find_ne_nil : d.find ≠ []
  terms : ∀ (index : Nat) (term : FindTerm), d.find[index]? = some term →
    term.WellFormedAt d.find index
  keys : ∀ keys, d.keys = some keys →
    keys.length = d.find.length ∧ (∀ key ∈ keys, key ≠ "") ∧ keys.Nodup
  args : ∀ args inputs, d.args = some args → d.inputs = some inputs → args.length ≤ inputs.length
  inputs : ∀ b ∈ d.inputs.getD [], b.WellFormed
  clauses : ∀ c ∈ d.clauses.getD [], c.WellFormed

/-- There are no remarks on keys that are not empty and differ, also from those seen before. -/
theorem keyRemarks_eq_nil_iff (seen keys : List String) :
    keyRemarks seen keys = [] ↔
      (∀ key ∈ keys, key ≠ "") ∧ keys.Nodup ∧ ∀ key ∈ keys, key ∉ seen := by
  -- Each key is seen by those behind it, so the induction is over all keys seen before.
  induction keys generalizing seen with
  | nil => simp [keyRemarks]
  | cons key rest ih =>
    rw [keyRemarks]
    split_ifs with hempty hseen
    · simp [hempty]
    · rw [List.contains_iff_mem] at hseen
      simp [hseen]
    · rw [List.contains_iff_mem] at hseen
      rw [ih, List.nodup_cons]
      simp only [List.mem_cons, forall_eq_or_imp, not_or]
      constructor
      · intro h
        obtain ⟨hnames, hrest, hnew⟩ := h
        have hkey : key ∉ rest := fun hmem => (hnew key hmem).1 rfl
        have hothers : ∀ k ∈ rest, k ∉ seen := fun k hk => (hnew k hk).2
        exact ⟨⟨hempty, hnames⟩, ⟨hkey, hrest⟩, hseen, hothers⟩
      · intro h
        obtain ⟨⟨-, hnames⟩, ⟨hkey, hrest⟩, -, hothers⟩ := h
        have hnew : ∀ k ∈ rest, k ≠ key ∧ k ∉ seen := by
          intro k hk
          refine ⟨?_, hothers k hk⟩
          intro hsame
          subst hsame
          exact hkey hk
        exact ⟨hnames, hrest, hnew⟩

theorem silent_stepsIf {α : Type} (field : String) (outline : α → Outline (List Remark))
    (items : Option (List α)) :
    (∀ step ∈ stepsIf field outline items, step.Silent) ↔
      ∀ item ∈ items.getD [], (outline item).Silent := by
  cases items <;> simp [stepsIf]

theorem remarks_eq_nil_iff (d : Document) :
    d.remarks = [] ↔ d.find ≠ [] ∧
      (∀ keys, d.keys = some keys →
        keys.length = d.find.length ∧ (∀ key ∈ keys, key ≠ "") ∧ keys.Nodup) ∧
      ∀ args inputs, d.args = some args → d.inputs = some inputs →
        args.length ≤ inputs.length := by
  rw [remarks, List.append_eq_nil_iff, List.append_eq_nil_iff, remarkIf_eq_nil_iff,
    List.isEmpty_eq_false_iff, and_assoc]
  refine and_congr_right fun _ => and_congr ?_ ?_
  · cases d.keys with
    | none => simp
    | some keys => simp [keyRemarks_eq_nil_iff]
  · cases d.args with
    | none => simp
    | some args => cases d.inputs <;> simp

/-- The outline of a document is silent exactly if the document makes sense. -/
theorem silent_outline_iff (d : Document) : d.outline.Silent ↔ d.WellFormed := by
  have hterms : (∀ term ∈ d.find.mapIdx (FindTerm.outline d.find), term.Silent) ↔
      ∀ (index : Nat) (term : FindTerm), d.find[index]? = some term →
        term.WellFormedAt d.find index := by
    simp only [← FindTerm.silent_outline_iff, List.mem_mapIdx, forall_exists_index]
    constructor
    · intro h index term hterm
      obtain ⟨hlt, rfl⟩ := List.getElem?_eq_some_iff.mp hterm
      exact h _ index hlt rfl
    · intro h tree index hlt htree
      subst htree
      exact h index _ (List.getElem?_eq_getElem hlt)
  have hsteps : (∀ step ∈ OutlineStep.indexed "find" (d.find.mapIdx (FindTerm.outline d.find)) ::
      (stepsIf "in" Binding.outline d.inputs ++ stepsIf "where" Clause.outline d.clauses),
        step.Silent) ↔
      (∀ (index : Nat) (term : FindTerm), d.find[index]? = some term →
        term.WellFormedAt d.find index) ∧
      (∀ b ∈ d.inputs.getD [], b.WellFormed) ∧ ∀ c ∈ d.clauses.getD [], c.WellFormed := by
    simp only [List.mem_cons, List.mem_append, or_imp, forall_and, forall_eq,
      OutlineStep.silent_indexed, hterms, silent_stepsIf, Binding.silent_outline_iff,
      Clause.silent_outline_iff]
  rw [outline, Outline.silent_node, remarks_eq_nil_iff, hsteps]
  constructor
  · intro h
    obtain ⟨⟨hfind, hkeys, hargs⟩, hterms, hinputs, hclauses⟩ := h
    exact ⟨hfind, hterms, hkeys, hargs, hinputs, hclauses⟩
  · intro h
    exact ⟨⟨h.find_ne_nil, h.keys, h.args⟩, h.terms, h.inputs, h.clauses⟩

/-- Exactly the well-formed documents pass the check. -/
theorem validate_eq_ok_iff (d : Document) : d.validate = .ok () ↔ d.WellFormed := by
  rw [← silent_outline_iff, ← Outline.issues_eq_nil_iff, validate, issues]
  cases d.outline.issues <;> simp

end Document

end DatalogClient
