import DatalogClient.Proofs.Document.RoundTrip
import DatalogClient.Proofs.Json.Nesting

/-!
# The literals of a document

Literals stand in a document in four places: as defaults of options, in clauses, in the uses of
rules, and as arguments. Whatever else a document holds is written without floating-point numbers,
so the wire form of a document whose literals are none has integers for numbers only.

## Main definitions

* `Document.EveryLiteral` — a condition holds of every literal that stands in the document
* `Value.Floatless`, `Document.Floatless` — no floating-point number occurs

## Main results

* `Document.whole_wire` — the numbers of a document without floating-point numbers are integers
-/

namespace DatalogClient

variable {p : Value → Prop}

/-! ### Where literals stand -/

/-- The condition holds of the literal of an option, if it has one. -/
def OptionKind.EveryLiteral (p : Value → Prop) : OptionKind → Prop
  | renamed _ => True
  | limit _ => True
  | fallback value => p value

/-- The condition holds of the literal of a key, if it has one. -/
def MapKey.EveryLiteral (p : Value → Prop) : MapKey → Prop
  | attr _ => True
  | option o => o.kind.EveryLiteral p

/-- The condition holds of the literal of a spec, if it has one, apart from the specs inside it. -/
def AttrSpec.EveryLiteralHere (p : Value → Prop) : AttrSpec → Prop
  | .name _ => True
  | .wildcard => True
  | .option o => o.kind.EveryLiteral p
  | .map (.attrs _) => True
  | .map (.keyed key _) => key.EveryLiteral p

/-- The condition holds of every literal of a term. -/
def FindTerm.EveryLiteral (p : Value → Prop) : FindTerm → Prop
  | .var _ => True
  | .pull request => ∀ spec ∈ request.pattern, spec.Every (AttrSpec.EveryLiteralHere p)
  | .single => True
  | .many => True

/-- The literals that stand in a clause, beside the names of what is called. -/
def Clause.operands : Clause → List Value
  | pattern items => items
  | predicate call => call.args
  | function call _ => call.args
  | rule usage => usage.args

/-- The condition holds of every literal of the document. -/
structure Document.EveryLiteral (p : Value → Prop) (d : Document) : Prop where
  find : ∀ term ∈ d.find, term.EveryLiteral p
  clauses : ∀ c ∈ d.clauses.getD [], ∀ v ∈ c.operands, p v
  args : ∀ v ∈ d.args.getD [], p v

/-! ### Literals without floating-point numbers -/

/-- A literal is no floating-point number. -/
def Value.NotFloat : Value → Prop
  | float _ => False
  | _ => True

/-- No floating-point number occurs in the literal. -/
def Value.Floatless (v : Value) : Prop := v.Every NotFloat

/-- No floating-point number occurs in the document. -/
def Document.Floatless (d : Document) : Prop := d.EveryLiteral Value.Floatless

namespace Json

theorem isWhole_toInt (n : Int64) : IsWhole n.toInt := by
  have hlower := n.minValue_le_toInt
  have hupper := n.toInt_le
  rw [Int64.toInt_minValue] at hlower
  rw [Int64.toInt_maxValue] at hupper
  exact ⟨hlower, by omega⟩

theorem isWhole_toNat (n : UInt64) : IsWhole n.toNat := by
  have hupper := n.toNat_lt
  exact ⟨by omega, by omega⟩

theorem whole_map_str (texts : List String) : (Json.arr (texts.map .str)).Whole := by
  rw [whole_arr, List.forall_mem_map]
  exact fun text _ => trivial

end Json

theorem Value.whole_toJson {v : Value} (h : v.Floatless) : v.toJson.Whole := by
  induction v using nestedInduction with
  | list items ih =>
    rw [Floatless, every_list] at h
    rw [toJson, listToJson_eq_map, Json.whole_arr, List.forall_mem_map]
    exact fun item hitem => ih item hitem (h.2 item hitem)
  | int n => exact Json.isWhole_toInt n
  | float x => exact h.elim
  | typed t => simp [toJson, TypedText.toJson, Json.Whole, Json.Every, Json.WholeNumber]
  | bool b => trivial
  | text s => trivial

theorem Value.whole_listToJson {items : List Value} (h : ∀ v ∈ items, v.Floatless) :
    ∀ j ∈ listToJson items, j.Whole := by
  rw [listToJson_eq_map, List.forall_mem_map]
  exact fun v hv => whole_toJson (h v hv)

/-! ### Wire forms of parts -/

theorem AttrOption.whole_toJson {o : AttrOption} (h : o.kind.EveryLiteral Value.Floatless) :
    o.toJson.Whole := by
  have hargument : o.kind.argument.Whole := by
    cases hkind : o.kind with
    | renamed name => trivial
    | limit count => exact Json.isWhole_toNat count
    | fallback value =>
      rw [hkind] at h
      exact Value.whole_toJson h
  simp only [toJson, Json.whole_arr, List.forall_mem_cons, List.not_mem_nil, false_imp_iff,
    implies_true, and_true]
  exact ⟨trivial, trivial, hargument⟩

theorem MapKey.whole_toJson {key : MapKey} (h : key.EveryLiteral Value.Floatless) :
    key.toJson.Whole := by
  cases key with
  | attr name => trivial
  | option o => exact AttrOption.whole_toJson h

theorem RecursionLimit.whole_toJson (limit : RecursionLimit) : limit.toJson.Whole := by
  cases limit with
  | depth count => exact Json.isWhole_toNat count
  | unbounded => trivial

theorem AttrSpec.whole_toJson {s : AttrSpec}
    (h : s.Every (EveryLiteralHere Value.Floatless)) : s.toJson.Whole := by
  induction s using nestedInduction with
  | name attr => trivial
  | wildcard => trivial
  | option o => exact AttrOption.whole_toJson h
  | attrs entries ih =>
    obtain ⟨-, hinside⟩ := (every_attrs entries).mp h
    rw [toJson, MapSpec.toJson, MapSpec.entriesToJson_eq_map, Json.whole_obj, List.forall_mem_map]
    intro entry hentry
    obtain ⟨name, target⟩ := entry
    cases target with
    | pattern specs =>
      rw [MapTarget.toJson, patternToJson_eq_map, Json.whole_arr, List.forall_mem_map]
      exact fun s hs => ih _ hentry s hs (hinside _ hentry s hs)
    | recursion limit => exact limit.whole_toJson
  | keyed key selector ih =>
    obtain ⟨hkey, hinside⟩ := (every_keyed key selector).mp h
    have hselector : (Json.arr (selector.map toJson)).Whole := by
      rw [Json.whole_arr, List.forall_mem_map]
      exact fun s hs => ih s hs (hinside s hs)
    rw [toJson, MapSpec.toJson, patternToJson_eq_map, Json.whole_obj, List.forall_mem_cons,
      List.forall_mem_singleton]
    exact ⟨MapKey.whole_toJson hkey, hselector⟩

theorem FindTerm.whole_toJson {t : FindTerm} (h : t.EveryLiteral Value.Floatless) :
    t.toJson.Whole := by
  cases t with
  | pull request =>
    have hpattern : (Json.arr (request.pattern.map AttrSpec.toJson)).Whole := by
      rw [Json.whole_arr, List.forall_mem_map]
      exact fun spec hspec => AttrSpec.whole_toJson (h spec hspec)
    rw [toJson, Pull.toJson, AttrSpec.patternToJson_eq_map, Json.whole_obj, List.forall_mem_cons,
      List.forall_mem_singleton]
    exact ⟨hpattern, trivial⟩
  | var text => trivial
  | single => trivial
  | many => trivial

theorem Binding.whole_toJson (b : Binding) : b.toJson.Whole := by
  cases b with
  | scalar var => trivial
  | tuple vars => exact Json.whole_map_str vars
  | collection var => exact Json.whole_map_str [var, collectionMark]
  | relation vars =>
    rw [toJson, Json.whole_arr, List.forall_mem_singleton]
    exact Json.whole_map_str vars

theorem Call.whole_toJson {c : Call} (h : ∀ v ∈ c.args, v.Floatless) : c.toJson.Whole := by
  rw [toJson, Json.whole_arr, List.forall_mem_cons]
  exact ⟨trivial, Value.whole_listToJson h⟩

theorem Clause.whole_toJson {c : Clause} (h : ∀ v ∈ c.operands, v.Floatless) : c.toJson.Whole := by
  cases c with
  | pattern items =>
    rw [toJson, Json.whole_arr]
    exact Value.whole_listToJson h
  | predicate call =>
    rw [toJson, Json.whole_arr, List.forall_mem_singleton]
    exact Call.whole_toJson h
  | function call binding =>
    rw [toJson, Json.whole_arr, List.forall_mem_cons, List.forall_mem_singleton]
    exact ⟨Call.whole_toJson h, binding.whole_toJson⟩
  | rule usage =>
    have hitems : (Json.arr (.str usage.name :: Value.listToJson usage.args)).Whole := by
      rw [Json.whole_arr, List.forall_mem_cons]
      exact ⟨trivial, Value.whole_listToJson h⟩
    rw [toJson, RuleUsage.toJson, Json.whole_obj, List.forall_mem_cons, List.forall_mem_singleton]
    exact ⟨trivial, hitems⟩

/-! ### Documents -/

namespace Document

theorem whole_memberIf {α : Type} (name : String) (write : α → Json) (items : Option (List α))
    (h : ∀ a ∈ items.getD [], (write a).Whole) :
    ∀ member ∈ memberIf name write items, member.2.Whole := by
  cases items with
  | none => simp [memberIf]
  | some items =>
    rw [memberIf, List.forall_mem_singleton, Json.whole_arr, List.forall_mem_map]
    exact h

/-- The numbers of a document without floating-point numbers are integers that are read back. -/
theorem whole_wire {d : Document} (h : d.Floatless) : d.wire.Whole := by
  have hfind : (Json.arr (d.find.map FindTerm.toJson)).Whole := by
    rw [Json.whole_arr, List.forall_mem_map]
    exact fun term hterm => FindTerm.whole_toJson (h.find term hterm)
  have hkeys := whole_memberIf "keys" .str d.keys fun _ _ => trivial
  have hinputs := whole_memberIf "in" Binding.toJson d.inputs fun b _ => Binding.whole_toJson b
  have hclauses := whole_memberIf "where" Clause.toJson d.clauses fun c hc =>
    Clause.whole_toJson (h.clauses c hc)
  have hargs := whole_memberIf "args" Value.toJson d.args fun v hv =>
    Value.whole_toJson (h.args v hv)
  rw [wire, Json.whole_obj, List.forall_mem_cons, List.forall_mem_append, List.forall_mem_append,
    List.forall_mem_append]
  exact ⟨hfind, ⟨⟨hkeys, hinputs⟩, hclauses⟩, hargs⟩

end Document

end DatalogClient
