import DatalogClient.Proofs.Document.Clauses
import DatalogClient.Proofs.Document.Spelling

/-!
# What is written again as it was

A part of a document may be read as something else than what was written. If what was read is
written in the same form again, it cannot differ by much: a literal is the same literal, and a
clause has the same literals, so that it is the clause that these look like.

Calls are an instance. A call of plain arguments is read back, alone and with a variable for its
result, unless its name and its only argument pass for a typed text. In that case the form is not
kept either.

## Main definitions

* `Value.IsPlain` — literals that are neither lists nor floating-point numbers
* `Call.PassesForTyped` — calls whose list is read as a typed text

## Main results

* `Value.toJson_eq_iff_of_reread`, `Clause.reread_iff` — what is read of a form that is kept
* `Clause.calls_reread_iff` — which calls are read back, and of which the form is kept
-/

namespace DatalogClient

open Json (Reads)
open Value (marksKind)

/-! ### Literals -/

/-- What was read item by item is what was written, if it is written in the same form again. -/
theorem eq_of_reread {α β : Type} {read : β → Option α} {write : α → β} {items values : List α}
    (hread : List.Forall₂ (fun item value => read (write item) = some value) items values)
    (hsame : values.map write = items.map write)
    (h : ∀ item ∈ items, ∀ value, read (write item) = some value → write value = write item →
      value = item) : values = items := by
  induction hread with
  | nil => rfl
  | cons hitem hrest ih =>
    rw [List.map_cons, List.map_cons, List.cons.injEq] at hsame
    obtain ⟨hform, hforms⟩ := hsame
    rw [List.forall_mem_cons] at h
    obtain ⟨hhead, htail⟩ := h
    rw [hhead _ hitem hform, ih hforms htail]

namespace Value

theorem eq_of_canonical {v w : Value} (hv : v.Canonical marksKind)
    (h : ofJson? v.toJson = some w) : w = v := by
  rw [← ofJson?_toJson_iff, h, Option.some_inj] at hv
  exact hv

/-- A literal that was read from the form of another has that form only if it is the same. -/
theorem toJson_eq_iff_of_reread {v w : Value} (h : ofJson? v.toJson = some w) :
    w.toJson = v.toJson ↔ w = v := by
  refine ⟨?_, congrArg toJson⟩
  intro hsame
  induction v using nestedInduction generalizing w with
  | list items ih =>
    rw [toJson, listToJson_eq_map] at hsame h
    obtain ⟨values, rfl, hforms⟩ := toJson_eq_arr_iff.mp hsame
    obtain ⟨_, ⟨⟩, -, hread⟩ := ofJson?_eq_list_iff.mp h
    rw [listOfJson?_eq_some_iff, List.forall₂_map_left_iff] at hread
    exact congrArg list (eq_of_reread hread hforms fun item hitem _ => ih item hitem)
  | float x =>
    by_cases hx : x.isFinite = true
    · exact eq_of_canonical hx h
    · -- A number that is not finite is written as null, and null is no literal.
      simp [toJson, hx, ofJson?] at h
  | bool b => exact eq_of_canonical (canonical_bool _ b) h
  | int n => exact eq_of_canonical (canonical_int _ n) h
  | text s => exact eq_of_canonical (canonical_text _ s) h
  | typed t => exact eq_of_canonical (canonical_typed _ t) h

/-- A literal that is neither a list nor a floating-point number. -/
def IsPlain : Value → Prop
  | bool _ => True
  | int _ => True
  | text _ => True
  | typed _ => True
  | float _ => False
  | list _ => False

theorem IsPlain.canonical {heads : Value → Bool} {v : Value} (h : v.IsPlain) :
    v.Canonical heads := by
  cases v with
  | bool b => exact canonical_bool heads b
  | int n => exact canonical_int heads n
  | text s => exact canonical_text heads s
  | typed t => exact canonical_typed heads t
  | float x => exact h.elim
  | list items => exact h.elim

end Value

/-! ### Clauses -/

namespace Clause

variable {c : Clause}

/-- The form of a clause other than a rule is kept if its literals are read back and cannot be
taken for a rule. What is read is then the clause that the literals look like. -/
theorem reread_iff (hc : ∀ r, c ≠ .rule r) {read : Clause} :
    ofJson? c.toJson = some read ∧ read.toJson = c.toJson ↔
      (∀ v ∈ c.literals, v.Canonical marksKind) ∧
        (∀ call : Call, c.literals ≠ [.text RuleUsage.tag, call.literal]) ∧
        read = ofItems c.literals := by
  rw [toJson_eq_arr hc]
  constructor
  · intro h
    obtain ⟨hread, hsame⟩ := h
    -- A rule is written as an object, so a list cannot have been read as one.
    have hrule : ∀ r, read ≠ .rule r := by
      intro r hr
      rw [hr, toJson, RuleUsage.toJson_eq] at hsame
      cases hsame
    obtain ⟨hnorule, _, ⟨⟩, values, hvalues, rfl⟩ := (ofJson?_eq_some_iff hrule).mp hread
    rw [toJson_eq_arr hrule, literals_ofItems, Json.arr.injEq] at hsame
    have hitems := Value.listOfJson?_eq_some_iff.mp hvalues
    rw [List.forall₂_map_left_iff] at hitems
    have hliterals : values = c.literals := eq_of_reread hitems hsame
      fun item _ value hvalue => (Value.toJson_eq_iff_of_reread hvalue).mp
    subst hliterals
    rw [Value.listOfJson?_map_toJson_iff] at hvalues
    simp only [Value.ofJson?_toJson_iff] at hvalues
    exact ⟨hvalues, (ofJson?_map_toJson_iff hvalues).mp hread, rfl⟩
  · intro h
    obtain ⟨hcanonical, hcall, rfl⟩ := h
    have hform : (ofItems c.literals).toJson = .arr (c.literals.map Value.toJson) := by
      rw [toJson_eq_arr (ofItems_ne_rule _), literals_ofItems]
    exact ⟨(ofJson?_map_toJson_iff hcanonical).mpr hcall, hform⟩

end Clause

/-! ### Calls of plain arguments -/

theorem Value.isPair_eq_true_iff {heads : Value → Bool} {items : List Value} :
    isPair heads items = true ↔
      ∃ head text, items = [head, .text text] ∧ heads head = true := by
  constructor
  · intro h
    match items, h with
    | [head, .text s], h => exact ⟨head, s, rfl, h⟩
  · intro h
    obtain ⟨head, text, rfl, hhead⟩ := h
    exact hhead

/-- A text marks a kind by being its name. -/
theorem Value.marksKind_text_iff {name : String} :
    marksKind (.text name) = true ↔ ∃ kind : Kind, name = kind.name := by
  have hnumber : numbersKind (.text name) = false := rfl
  rw [marksKind, hnumber, Bool.or_false, namesKind, Option.isSome_iff_exists]
  constructor
  · intro h
    obtain ⟨kind, hkind⟩ := h
    exact ⟨kind, (Kind.name_of_ofName? hkind).symm⟩
  · intro h
    obtain ⟨kind, rfl⟩ := h
    exact ⟨kind, Kind.ofName?_name kind⟩

namespace Call

variable {call : Call}

/-- The list of the call is that of a kind and a text. -/
def PassesForTyped (call : Call) : Prop :=
  ∃ (kind : Kind) (text : String), call.name = kind.name ∧ call.args = [.text text]

theorem isPair_literal_iff :
    Value.isPair marksKind (.text call.name :: call.args) = true ↔ call.PassesForTyped := by
  rw [Value.isPair_eq_true_iff, PassesForTyped]
  constructor
  · intro h
    obtain ⟨head, text, hitems, hhead⟩ := h
    obtain ⟨rfl, hargs⟩ := List.cons.inj hitems
    obtain ⟨kind, hkind⟩ := Value.marksKind_text_iff.mp hhead
    exact ⟨kind, text, hkind, hargs⟩
  · intro h
    obtain ⟨kind, text, hname, hargs⟩ := h
    exact ⟨.text call.name, text, by rw [hargs], Value.marksKind_text_iff.mpr ⟨kind, hname⟩⟩

theorem canonical_literal_iff (hargs : ∀ arg ∈ call.args, arg.IsPlain) :
    call.literal.Canonical marksKind ↔ ¬ call.PassesForTyped := by
  have hitems : ∀ item ∈ Value.text call.name :: call.args, item.Canonical marksKind := by
    rw [List.forall_mem_cons]
    exact ⟨Value.canonical_text marksKind call.name, fun arg harg => (hargs arg harg).canonical⟩
  rw [literal, Value.canonical_list, and_iff_left hitems, ← isPair_literal_iff,
    Bool.not_eq_true]

end Call

/-- What a single input may be bound to begins like a variable. -/
theorem Binding.looksLikeVariable_of_isInputVar {var : String}
    (h : Spelling.isInputVar var = true) : looksLikeVariable var = true := by
  obtain ⟨sign, name, htext, -, hsign⟩ := Spelling.isInputVar_iff.mp h
  rw [looksLikeVariable, Bool.or_eq_true]
  right
  rcases hsign with ⟨rfl, -⟩ | rfl | ⟨rfl, -⟩ <;> simp [htext]

namespace Clause

/-- A call of plain arguments is read back, alone or with a variable for its result, exactly if it
does not pass for a typed text; and in no other case is even its form kept. -/
theorem calls_reread_iff {call : Call} {var : String} (hargs : ∀ arg ∈ call.args, arg.IsPlain)
    (hvar : Spelling.isLogicVar var = true) :
    ∀ c ∈ [Clause.predicate call, .function call (.scalar var)],
      (Reads decode c.toJson c ↔ ¬ call.PassesForTyped) ∧
        ((∃ read, Reads decode c.toJson read ∧ read.toJson = c.toJson) ↔
          ¬ call.PassesForTyped) := by
  have hinput : Spelling.isInputVar var = true := by
    rw [Spelling.isInputVar, hvar, Bool.true_or, Bool.true_or]
  have hbinding : (Binding.scalar var).Canonical ∧ (Binding.scalar var).LooksBound :=
    ⟨by simp [Binding.Canonical], Binding.looksLikeVariable_of_isInputVar hinput⟩
  intro c hc
  have hrule : ∀ r, c ≠ .rule r := by
    rintro r rfl
    simp at hc
  have hback : c.Canonical marksKind ↔ ¬ call.PassesForTyped := by
    rw [← Call.canonical_literal_iff hargs]
    rw [List.mem_pair] at hc
    rcases hc with rfl | rfl
    · rw [Canonical]
    · have hliteral : (Binding.scalar var).literal.Canonical marksKind :=
        Value.canonical_text marksKind var
      rw [Canonical, and_iff_left ⟨hliteral, hbinding⟩]
  have hform : (∃ read, Reads decode c.toJson read ∧ read.toJson = c.toJson) ↔
      c.Canonical marksKind := by
    simp only [reads_decode_iff]
    constructor
    · intro h
      obtain ⟨read, hread⟩ := h
      -- What is read is the clause that the literals look like, and these look like this one.
      obtain ⟨hcanonical, hcall, -⟩ := (reread_iff hrule).mp hread
      have hitems : ofItems c.literals = c := by
        rw [List.mem_pair] at hc
        rcases hc with rfl | rfl
        · rfl
        · exact ofItems_eq_function_iff.mpr hbinding
      exact (canonical_iff hrule).mpr ⟨hcanonical, hitems, hcall⟩
    · intro h
      exact ⟨c, (ofJson?_toJson_iff c).mpr h, rfl⟩
  rw [hform, reads_decode_iff, ofJson?_toJson_iff]
  exact ⟨hback, hback⟩

/-- A call of every plain kind of argument, with a name that is that of a kind. -/
def plainCall : Call := ⟨"uuid", [.bool true, .int (-3), .text "x", .typed ⟨.keyword, "db/id"⟩]⟩

theorem plainCall_reread :
    (∀ arg ∈ plainCall.args, arg.IsPlain) ∧ Spelling.isLogicVar "?u" = true ∧
      ∀ c ∈ [Clause.predicate plainCall, .function plainCall (.scalar "?u")],
        Reads decode c.toJson c := by
  have hargs : ∀ arg ∈ plainCall.args, arg.IsPlain := by
    simp [plainCall, Value.IsPlain]
  have hvar : Spelling.isLogicVar "?u" = true := by decide
  have htyped : ¬ plainCall.PassesForTyped := by
    simp [Call.PassesForTyped, plainCall]
  exact ⟨hargs, hvar, fun c hc => (calls_reread_iff hargs hvar c hc).1.mpr htyped⟩

/-- A call of the function `uuid` with one text. -/
def typedCall : Call := ⟨"uuid", [.text "x"]⟩

/-- The call is read as a pattern of one typed text, which is written as such. -/
theorem typedCall_not_reread :
    (∀ arg ∈ typedCall.args, arg.IsPlain) ∧
      ¬ Reads decode (Clause.predicate typedCall).toJson (.predicate typedCall) ∧
      ∀ read, Reads decode (Clause.predicate typedCall).toJson read →
        read.toJson ≠ (Clause.predicate typedCall).toJson := by
  have hread : Reads decode (Clause.predicate typedCall).toJson
      (.pattern [.typed ⟨.uuid, "x"⟩]) := rfl
  refine ⟨by simp [typedCall, Value.IsPlain], ?_, ?_⟩
  · intro h
    rw [Reads, hread] at h
    cases h
  · intro read h
    rw [Reads, hread] at h
    obtain rfl := Except.ok.inj h
    simp [toJson, TypedText.toJson, Value.toJson, Call.toJson]

end Clause

end DatalogClient
