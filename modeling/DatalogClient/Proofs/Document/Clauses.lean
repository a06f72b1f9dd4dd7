import DatalogClient.Document.Clause
import DatalogClient.Proofs.Document.Bindings

/-!
# Clauses that are read back

Patterns, calls, and calls with a binding are all written as lists of literals, and a list of
literals is read as whatever it looks like. A list that begins with the word for rules may even be
a rule, since a record may be written as the list of its fields. So a pattern is not read back if
it has the look of something else, and a call is not if its binding has not.

## Main definitions

* `Clause.literals` — the literals that a clause is written as
* `Clause.Canonical` — clauses that are read back

## Main results

* `RuleUsage.reads_toJson_iff` — a rule is read back exactly if its arguments are
* `Clause.ofJson?_toJson_iff` — a clause is read back exactly if it is canonical
* `Clause.canonical_of_ofJson?` — a clause that was read is canonical
-/

namespace DatalogClient

open Json (Reads)
open Value (marksKind)

/-! ### Rules -/

namespace RuleUsage

variable {r : RuleUsage}

/-- A rule has the type of rules, and its name comes first. -/
theorem ofParts_eq_ok_iff {found : String} {items : List Value} :
    ofParts found items = .ok r ↔ found = tag ∧ items = .text r.name :: r.args := by
  by_cases htag : found = tag
  · rw [ofParts.eq_def, if_neg (not_not.mpr htag)]
    match items with
    | [] => simp
    | .text name :: args =>
      obtain ⟨n, as⟩ := r
      simp [htag]
    | .bool b :: rest => simp
    | .int n :: rest => simp
    | .float x :: rest => simp
    | .typed t :: rest => simp
    | .list inner :: rest => simp
  · simp [ofParts, htag]

theorem reads_decode_iff {j : Json} :
    Reads decode j r ↔ Reads record.decode j (tag, .text r.name :: r.args) := by
  rw [Reads, Reads, decode]
  cases hrecord : record.decode (.ofJson j) with
  | error problem => simp
  | ok parts =>
    obtain ⟨found, items⟩ := parts
    simp only [Except.ok.injEq, Prod.mk.injEq]
    rw [← ofParts_eq_ok_iff]
    cases ofParts found items <;> simp [Except.mapError]

/-- A rule may be read from a list of the type and the items. -/
theorem reads_arr_iff {items : List Json} :
    Reads decode (.arr items) r ↔
      ∃ inner, items = [.str tag, .arr inner] ∧
        Value.listOfJson? inner = some (.text r.name :: r.args) := by
  rw [reads_decode_iff, Json.Record.reads_list_iff (r := record) rfl]
  simp only [Json.reads_text_iff, Value.reads_each_decode_iff]
  constructor
  · intro h
    obtain ⟨x, y, rfl, found, values, rfl, ⟨inner, rfl, hinner⟩, hbuild⟩ := h
    cases hbuild
    exact ⟨inner, rfl, hinner⟩
  · intro h
    obtain ⟨inner, rfl, hinner⟩ := h
    exact ⟨_, _, rfl, tag, _, rfl, ⟨inner, rfl, hinner⟩, rfl⟩

/-- A rule is read from an object of the type and the items. -/
theorem reads_pair_iff {x y : Json} :
    Reads decode (.obj [("type", x), ("value", y)]) r ↔
      ∃ inner, x = .str tag ∧ y = .arr inner ∧
        Value.listOfJson? inner = some (.text r.name :: r.args) := by
  rw [reads_decode_iff,
    Json.Record.reads_pair_iff (r := record) rfl (by decide) rfl fun _ => rfl]
  simp only [Json.reads_text_iff, Value.reads_each_decode_iff]
  constructor
  · intro h
    obtain ⟨found, values, rfl, ⟨inner, rfl, hinner⟩, hbuild⟩ := h
    cases hbuild
    exact ⟨inner, rfl, rfl, hinner⟩
  · intro h
    obtain ⟨inner, rfl, rfl, hinner⟩ := h
    exact ⟨tag, _, rfl, ⟨inner, rfl, hinner⟩, rfl⟩

/-- The arguments are canonical. -/
def Canonical (heads : Value → Bool) (r : RuleUsage) : Prop := ∀ arg ∈ r.args, arg.Canonical heads

theorem toJson_eq (r : RuleUsage) :
    r.toJson = .obj [("type", .str tag),
      ("value", .arr ((Value.text r.name :: r.args).map Value.toJson))] := by
  rw [toJson, Value.listToJson_eq_map, List.map_cons, Value.toJson]

theorem distinct_toJson (r : RuleUsage) : r.toJson.Distinct := by
  rw [toJson_eq]
  simp only [Json.distinct_obj, List.map_cons, List.map_nil, List.mem_cons, List.not_mem_nil,
    or_false, forall_eq_or_imp, forall_eq, Json.distinct_arr, List.mem_map, forall_exists_index,
    and_imp, forall_apply_eq_imp_iff₂]
  exact ⟨by decide, trivial, trivial, fun arg _ => arg.distinct_toJson⟩

/-- A rule is read back from its wire form exactly if it is canonical. -/
theorem reads_toJson_iff (r : RuleUsage) : Reads decode r.toJson r ↔ r.Canonical marksKind := by
  rw [toJson_eq, reads_pair_iff]
  simp only [Json.arr.injEq, true_and, exists_eq_left', Value.listOfJson?_map_toJson_iff,
    Value.ofJson?_toJson_iff, List.mem_cons, forall_eq_or_imp, Value.canonical_text]
  rfl

/-- A rule that was read is canonical. -/
theorem canonical_of_decode {j : Json} (hj : j.Finite) (h : Reads decode j r) :
    r.Canonical marksKind := by
  -- Drafts stay such that the items, once there are any, are canonical.
  have hstep : ∀ field ∈ record.fields, ∀ (value : Json) (draft next : Draft),
      value.Every Json.FiniteNumber →
      (∀ items, draft.items = some items → ∀ item ∈ items, item.Canonical marksKind) →
      field.fill (.ofJson value) draft = .ok next →
      ∀ items, next.items = some items → ∀ item ∈ items, item.Canonical marksKind := by
    intro field hfield value draft next hvalue hdraft hfill
    simp only [record, List.mem_cons, List.not_mem_nil, or_false] at hfield
    rcases hfield with rfl | rfl
    · obtain ⟨tag, -, rfl⟩ := Json.RecordField.fill_of_iff.mp hfill
      exact hdraft
    · obtain ⟨items, hread, rfl⟩ := Json.RecordField.fill_of_iff.mp hfill
      intro values hvalues
      obtain rfl := Option.some.inj hvalues
      exact Json.forall_of_reads_each Value.canonical_of_decode hvalue hread
  obtain ⟨⟨found, items⟩, hdraft, hbuild⟩ :=
    Json.Record.invariant_of_decode (by simp [record]) hstep hj (reads_decode_iff.mp h)
  cases found with
  | none => cases hbuild
  | some found =>
    cases items with
    | none => cases hbuild
    | some items =>
      have hitems : items = .text r.name :: r.args := congrArg Prod.snd (Except.ok.inj hbuild)
      intro arg harg
      have hmem : arg ∈ items := by
        rw [hitems]
        exact List.mem_cons_of_mem _ harg
      exact hdraft items rfl arg hmem

end RuleUsage

/-! ### Lists of literals -/

/-- The list that a call is written as. -/
def Call.literal (c : Call) : Value := .list (.text c.name :: c.args)

theorem Call.ofItems?_eq_some_iff {items : List Value} {call : Call} :
    Call.ofItems? items = some call ↔ .list items = call.literal := by
  obtain ⟨name, args⟩ := call
  match items with
  | [] => simp [Call.ofItems?, Call.literal]
  | .text n :: rest => simp [Call.ofItems?, Call.literal]
  | .bool b :: rest => simp [Call.ofItems?, Call.literal]
  | .int n :: rest => simp [Call.ofItems?, Call.literal]
  | .float x :: rest => simp [Call.ofItems?, Call.literal]
  | .typed t :: rest => simp [Call.ofItems?, Call.literal]
  | .list inner :: rest => simp [Call.ofItems?, Call.literal]

namespace Clause

variable {c : Clause}

/-- The literals that a clause is written as, unless it is a rule. -/
def literals : Clause → List Value
  | pattern items => items
  | predicate call => [call.literal]
  | function call binding => [call.literal, binding.literal]
  | rule _ => []

theorem toJson_eq_arr (hrule : ∀ r, c ≠ .rule r) :
    c.toJson = .arr (c.literals.map Value.toJson) := by
  cases c with
  | pattern items => rw [toJson, Value.listToJson_eq_map, literals]
  | predicate call =>
    simp [toJson, literals, Call.toJson, Call.literal, Value.toJson]
  | function call binding =>
    simp [toJson, literals, Call.toJson, Call.literal, Value.toJson, Binding.toJson_literal]
  | rule usage => exact absurd rfl (hrule usage)

theorem distinct_toJson (c : Clause) : c.toJson.Distinct := by
  by_cases hc : ∃ r, c = .rule r
  · obtain ⟨r, rfl⟩ := hc
    exact r.distinct_toJson
  · rw [not_exists] at hc
    rw [toJson_eq_arr hc, Json.distinct_arr]
    intro item hitem
    obtain ⟨v, -, rfl⟩ := List.mem_map.mp hitem
    exact v.distinct_toJson

/-- The items are taken for a pattern: they are no call, and no call with something to bind to. -/
def StaysPattern (items : List Value) : Prop :=
  (∀ call : Call, items ≠ [call.literal]) ∧
    (∀ (call : Call) second, items = [call.literal, second] → Binding.ofValue? second = none) ∧
    ofItems items = .pattern items

theorem staysPattern_single {inner : List Value} (hcall : Call.ofItems? inner = none) :
    StaysPattern [.list inner] := by
  refine ⟨fun call hitems => ?_, by simp, by simp [ofItems, hcall]⟩
  rw [List.cons.injEq, ← Call.ofItems?_eq_some_iff, hcall] at hitems
  simp at hitems

/-- Of two items the first is no call, or there is one and what follows it is nothing to bind
to. -/
theorem staysPattern_pair {inner : List Value} {second : Value}
    (h : Call.ofItems? inner = none ∨ Binding.ofValue? second = none) :
    StaysPattern [.list inner, second] := by
  refine ⟨by simp, fun call v hitems => ?_, ?_⟩
  · simp only [List.cons.injEq, and_true] at hitems
    rw [← Call.ofItems?_eq_some_iff] at hitems
    rcases h with hcall | hbinding
    · rw [hcall] at hitems
      cases hitems.1
    · rw [← hitems.2, hbinding]
  · rcases h with hcall | hbinding
    · simp [ofItems, hcall]
    · cases hcall : Call.ofItems? inner <;> simp [ofItems, hcall, hbinding]

/-- A list is a call, a call with a binding, or neither and then a pattern. -/
theorem ofItems_cases (items : List Value) :
    (∃ call : Call, items = [call.literal] ∧ ofItems items = .predicate call) ∨
      (∃ (call : Call) (binding : Binding), items = [call.literal, binding.literal] ∧
        Binding.ofValue? binding.literal = some binding ∧
        ofItems items = .function call binding) ∨
      StaysPattern items := by
  -- Lists of one and of two items may begin with a call; all others are patterns at once.
  match items with
  | [.list inner] =>
    cases hcall : Call.ofItems? inner with
    | some call =>
      rw [Call.ofItems?_eq_some_iff] at hcall
      exact .inl ⟨call, by rw [hcall], by rw [hcall]; rfl⟩
    | none => exact .inr (.inr (staysPattern_single hcall))
  | [.list inner, second] =>
    cases hcall : Call.ofItems? inner with
    | some call =>
      cases hbinding : Binding.ofValue? second with
      | some binding =>
        have hsecond := (Binding.ofValue?_eq_some_iff.mp hbinding).1
        refine .inr (.inl ⟨call, binding, ?_, by rw [← hsecond, hbinding], ?_⟩)
        · rw [← Call.ofItems?_eq_some_iff.mp hcall, hsecond]
        · simp [ofItems, hcall, hbinding]
      | none => exact .inr (.inr (staysPattern_pair (.inr hbinding)))
    | none => exact .inr (.inr (staysPattern_pair (.inl hcall)))
  | [] => simp [StaysPattern, ofItems]
  | [.bool b] => simp [StaysPattern, ofItems, Call.literal]
  | [.int n] => simp [StaysPattern, ofItems, Call.literal]
  | [.float x] => simp [StaysPattern, ofItems, Call.literal]
  | [.text s] => simp [StaysPattern, ofItems, Call.literal]
  | [.typed t] => simp [StaysPattern, ofItems, Call.literal]
  | [.bool b, v] => simp [StaysPattern, ofItems, Call.literal]
  | [.int n, v] => simp [StaysPattern, ofItems, Call.literal]
  | [.float x, v] => simp [StaysPattern, ofItems, Call.literal]
  | [.text s, v] => simp [StaysPattern, ofItems, Call.literal]
  | [.typed t, v] => simp [StaysPattern, ofItems, Call.literal]
  | u :: v :: w :: rest => simp [StaysPattern, ofItems]

/-- The clause of a list is written as that list. -/
theorem literals_ofItems (items : List Value) : (ofItems items).literals = items := by
  rcases ofItems_cases items with ⟨call, hitems, h⟩ | ⟨call, binding, hitems, -, h⟩ | ⟨-, -, h⟩
  · rw [h, literals, hitems]
  · rw [h, literals, hitems]
  · rw [h, literals]

theorem ofItems_ne_rule (items : List Value) (r : RuleUsage) : ofItems items ≠ .rule r := by
  rcases ofItems_cases items with ⟨call, -, h⟩ | ⟨call, binding, -, -, h⟩ | ⟨-, -, h⟩
  · simp [h]
  · simp [h]
  · simp [h]

/-- The binding of a call, the look of a list, and the literals all stay as they are when the
clause is read. -/
def Canonical (heads : Value → Bool) : Clause → Prop
  | pattern items =>
    (∀ item ∈ items, item.Canonical heads) ∧
      (∀ call : Call, items ≠ [call.literal]) ∧
      (∀ (call : Call) second, items = [call.literal, second] → Binding.ofValue? second = none) ∧
      ∀ call : Call, items ≠ [.text RuleUsage.tag, call.literal]
  | predicate call => call.literal.Canonical heads
  | function call binding =>
    call.literal.Canonical heads ∧ binding.literal.Canonical heads ∧ binding.Canonical ∧
      binding.LooksBound
  | rule usage => usage.Canonical heads

/-- A list is a pattern exactly if it is neither a call nor a call with a binding. -/
theorem ofItems_eq_pattern_iff {items : List Value} :
    ofItems items = .pattern items ↔
      (∀ call : Call, items ≠ [call.literal]) ∧
        ∀ (call : Call) second, items = [call.literal, second] →
          Binding.ofValue? second = none := by
  rcases ofItems_cases items with
    ⟨call, rfl, h⟩ | ⟨call, binding, rfl, hbinding, h⟩ | ⟨hone, htwo, h⟩
  · simp [h]
  · rw [h]
    refine iff_of_false (by simp) fun hpattern => ?_
    simp [hpattern.2 call binding.literal rfl] at hbinding
  · exact iff_of_true h ⟨hone, htwo⟩

/-- A call with a binding is one exactly if the binding is taken from its literal. -/
theorem ofItems_eq_function_iff {call : Call} {binding : Binding} :
    ofItems [call.literal, binding.literal] = .function call binding ↔
      binding.Canonical ∧ binding.LooksBound := by
  have hbinding := Binding.ofValue?_eq_some_iff (v := binding.literal) (b := binding)
  rw [eq_self_iff_true, true_and] at hbinding
  have hcall : Call.ofItems? (.text call.name :: call.args) = some call := rfl
  rw [← hbinding, Call.literal, ofItems, hcall]
  cases Binding.ofValue? binding.literal <;> simp

/-- Clauses other than rules are canonical if their literals are and have no other look. -/
theorem canonical_iff {heads : Value → Bool} (hrule : ∀ r, c ≠ .rule r) :
    c.Canonical heads ↔
      (∀ v ∈ c.literals, v.Canonical heads) ∧ ofItems c.literals = c ∧
        ∀ call : Call, c.literals ≠ [.text RuleUsage.tag, call.literal] := by
  cases c with
  | pattern items => rw [Canonical, literals, ofItems_eq_pattern_iff, and_assoc]
  | predicate call =>
    have hcall : ofItems [call.literal] = .predicate call := rfl
    simp [Canonical, literals, hcall]
  | function call binding =>
    rw [Canonical, literals, ofItems_eq_function_iff]
    simp [Call.literal, and_assoc]
  | rule usage => exact absurd rfl (hrule usage)

/-! ### Reading -/

theorem ofJson?_eq_rule_iff {j : Json} {r : RuleUsage} :
    ofJson? j = some (.rule r) ↔ Reads RuleUsage.decode j r := by
  simp only [ofJson?, Reads]
  cases hrule : RuleUsage.decode (.ofJson j) with
  | ok usage => simp
  | error problem =>
    cases j with
    | arr items => simp [ofItems_ne_rule]
    | null => simp
    | bool b => simp
    | num n => simp
    | str s => simp
    | obj members => simp

/-- A clause other than a rule is read from a list of literals that cannot be a rule. -/
theorem ofJson?_eq_some_iff (hc : ∀ r, c ≠ .rule r) {j : Json} :
    ofJson? j = some c ↔
      (∀ r, ¬ Reads RuleUsage.decode j r) ∧
        ∃ items, j = .arr items ∧ ∃ values, Value.listOfJson? items = some values ∧
          ofItems values = c := by
  simp only [ofJson?, Reads]
  cases hrule : RuleUsage.decode (.ofJson j) with
  | ok usage =>
    -- Whatever can be a rule is one, though it may be a list.
    simp only [Option.some.injEq, Except.ok.injEq, forall_eq', false_and, iff_false]
    exact fun h => hc usage h.symm
  | error problem =>
    cases j with
    | arr items => simp [Option.map_eq_some_iff]
    | null => simp
    | bool b => simp
    | num n => simp
    | str s => simp
    | obj members => simp

/-- The type and the items of a rule are read as the rule. -/
theorem reads_rule_of_listOfJson? {items : List Json} {call : Call}
    (h : Value.listOfJson? items = some [.text RuleUsage.tag, call.literal]) :
    Reads RuleUsage.decode (.arr items) ⟨call.name, call.args⟩ := by
  rw [Value.listOfJson?_eq_some_iff] at h
  obtain ⟨first, rest, hfirst, hrest, rfl⟩ := List.forall₂_cons_right_iff.mp h
  obtain ⟨second, others, hsecond, hothers, rfl⟩ := List.forall₂_cons_right_iff.mp hrest
  obtain rfl := List.forall₂_nil_right_iff.mp hothers
  obtain rfl := Value.ofJson?_eq_text_iff.mp hfirst
  obtain ⟨inner, rfl, -, hinner⟩ := Value.ofJson?_eq_list_iff.mp hsecond
  exact RuleUsage.reads_arr_iff.mpr ⟨inner, rfl, hinner⟩

/-- Literals that are written as the type and the items of a rule are these. -/
theorem exists_call_of_map_toJson {items : List Value} {inner : List Json}
    (h : items.map Value.toJson = [.str RuleUsage.tag, .arr inner]) :
    ∃ values, items = [.text RuleUsage.tag, .list values] ∧ values.map Value.toJson = inner := by
  obtain ⟨first, rest, rfl, hfirst, hrest⟩ := List.map_eq_cons_iff.mp h
  obtain ⟨second, others, rfl, hsecond, hothers⟩ := List.map_eq_cons_iff.mp hrest
  obtain rfl := List.map_eq_nil_iff.mp hothers
  obtain rfl := Value.toJson_eq_str_iff.mp hfirst
  obtain ⟨values, rfl, hvalues⟩ := Value.toJson_eq_arr_iff.mp hsecond
  exact ⟨values, rfl, hvalues⟩

/-- Canonical literals pass for a rule only if they are the type and the items of one. -/
theorem reads_rule_iff {items : List Value} (hitems : ∀ v ∈ items, v.Canonical marksKind) :
    (∃ r, Reads RuleUsage.decode (.arr (items.map Value.toJson)) r) ↔
      ∃ call : Call, items = [.text RuleUsage.tag, call.literal] := by
  simp only [← Value.ofJson?_toJson_iff] at hitems
  constructor
  · intro h
    obtain ⟨r, hr⟩ := h
    obtain ⟨inner, hmap, hinner⟩ := RuleUsage.reads_arr_iff.mp hr
    obtain ⟨values, rfl, rfl⟩ := exists_call_of_map_toJson hmap
    -- The items of the rule are read twice, as a rule and as a literal, with one outcome.
    have hlist := hitems (.list values) (List.mem_cons_of_mem _ List.mem_cons_self)
    rw [Value.toJson, Value.listToJson_eq_map] at hlist
    obtain ⟨_, ⟨⟩, -, hvalues⟩ := Value.ofJson?_eq_list_iff.mp hlist
    rw [hinner, Option.some_inj] at hvalues
    exact ⟨⟨r.name, r.args⟩, by rw [Call.literal, hvalues]⟩
  · intro h
    obtain ⟨call, rfl⟩ := h
    have hread := Value.listOfJson?_map_toJson_iff.mpr hitems
    exact ⟨_, reads_rule_of_listOfJson? hread⟩

/-- Canonical literals are read as the clause that they look like, unless they pass for a rule. -/
theorem ofJson?_map_toJson_iff {items : List Value}
    (hitems : ∀ v ∈ items, v.Canonical marksKind) :
    ofJson? (.arr (items.map Value.toJson)) = some (ofItems items) ↔
      ∀ call : Call, items ≠ [.text RuleUsage.tag, call.literal] := by
  have hvalues : Value.listOfJson? (items.map Value.toJson) = some items := by
    rw [Value.listOfJson?_map_toJson_iff]
    simpa only [Value.ofJson?_toJson_iff] using hitems
  rw [ofJson?_eq_some_iff (ofItems_ne_rule items), and_iff_left ⟨_, rfl, _, hvalues, rfl⟩,
    ← not_exists, reads_rule_iff hitems, not_exists]

/-- A clause is read back from its wire form exactly if it is canonical. -/
theorem ofJson?_toJson_iff (c : Clause) : ofJson? c.toJson = some c ↔ c.Canonical marksKind := by
  by_cases hc : ∃ r, c = .rule r
  · obtain ⟨r, rfl⟩ := hc
    rw [toJson, ofJson?_eq_rule_iff, RuleUsage.reads_toJson_iff, Canonical]
  · rw [not_exists] at hc
    rw [canonical_iff hc, toJson_eq_arr hc]
    constructor
    · intro h
      -- Since the literals of a clause are the list it is taken from, they are read as themselves.
      obtain ⟨-, _, ⟨⟩, values, hvalues, rfl⟩ := (ofJson?_eq_some_iff hc).mp h
      rw [literals_ofItems] at hvalues h ⊢
      have hcanonical : ∀ v ∈ values, v.Canonical marksKind := by
        simpa only [Value.ofJson?_toJson_iff] using Value.listOfJson?_map_toJson_iff.mp hvalues
      exact ⟨hcanonical, rfl, (ofJson?_map_toJson_iff hcanonical).mp h⟩
    · intro h
      obtain ⟨hcanonical, hitems, hcall⟩ := h
      have hread := (ofJson?_map_toJson_iff hcanonical).mpr hcall
      rwa [hitems] at hread

/-- A clause that was read is canonical. -/
theorem canonical_of_ofJson? {j : Json} (hj : j.Finite) (h : ofJson? j = some c) :
    c.Canonical marksKind := by
  by_cases hc : ∃ r, c = .rule r
  · obtain ⟨r, rfl⟩ := hc
    exact RuleUsage.canonical_of_decode hj (ofJson?_eq_rule_iff.mp h)
  · rw [not_exists] at hc
    obtain ⟨hnorule, items, rfl, values, hvalues, rfl⟩ := (ofJson?_eq_some_iff hc).mp h
    rw [Json.finite_arr] at hj
    rw [canonical_iff hc, literals_ofItems]
    refine ⟨?_, rfl, ?_⟩
    · intro v hv
      rw [Value.listOfJson?_eq_some_iff] at hvalues
      obtain ⟨item, hitem, hread⟩ := Json.exists_item_of_mem hvalues hv
      exact Value.canonical_of_ofJson? (hj item hitem) hread
    · -- A list that looks like a rule would have been read as one.
      intro call hcall
      subst hcall
      exact hnorule _ (reads_rule_of_listOfJson? hvalues)

/-- The decoder of clauses reads what is a clause. -/
theorem reads_decode_iff {j : Json} : Reads decode j c ↔ ofJson? j = some c := by
  rw [Reads, decode, Located.json_ofJson, Except.toOption, Option.bind_some]
  cases ofJson? j <;> simp

theorem canonical_of_decode (j : Json) (c : Clause) (hj : j.Every Json.FiniteNumber)
    (h : Reads decode j c) : c.Canonical marksKind :=
  canonical_of_ofJson? hj (reads_decode_iff.mp h)

end Clause

end DatalogClient
