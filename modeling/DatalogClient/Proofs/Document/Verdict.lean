import DatalogClient.Proofs.Document.Rereading
import DatalogClient.Proofs.Document.RoundTrip
import DatalogClient.Proofs.Pull.Rereading

/-!
# What the check says of a document that was read again

The wire form of a document does not tell its parts apart, so a part may be read as one of another
kind, and other rules apply to it then. This changes what the check says in a few ways only. A
pattern that passes fails as a call if what is bound is no variable, or if the function has no
name. A document that fails may pass when it is read if a fault of it does not show on the wire.

## Main definitions

* `Clause.PassesAs` — a clause passes as another one, but for what it loses
* `Document.Loses` — documents with a pattern that passes only as such
* `Document.Settled` — documents whose faults all show on the wire

## Main results

* `Document.validate_reread` — a document and what is read of it pass alike, apart from these
-/

namespace DatalogClient

open Json (Reads)
open Spelling
open Value (marksKind)

/-- What holds of one list, value by value and place by place, exactly if it holds of another,
holds of all values so. -/
theorem forall_getElem?_iff_of_forall₂ {α β : Type} {R : α → β → Prop} {p : Nat → α → Prop}
    {q : Nat → β → Prop} {items : List α} {values : List β} (h : List.Forall₂ R items values)
    (hR : ∀ (index : Nat), ∀ a ∈ items, ∀ b, R a b → (p index a ↔ q index b)) :
    (∀ (index : Nat) a, items[index]? = some a → p index a) ↔
      ∀ (index : Nat) b, values[index]? = some b → q index b := by
  induction h generalizing p q with
  | nil => simp
  | cons hab hrest ih =>
    -- Behind the first place everything stands one place earlier.
    have hsplit : ∀ {γ : Type} (f : Nat → γ → Prop) (x : γ) (xs : List γ),
        (∀ (index : Nat) a, (x :: xs)[index]? = some a → f index a) ↔
          f 0 x ∧ ∀ (index : Nat) a, xs[index]? = some a → f (index + 1) a := by
      intro γ f x xs
      rw [← Nat.and_forall_add_one]
      simp
    rw [hsplit, hsplit]
    refine and_congr (hR 0 _ List.mem_cons_self _ hab) (ih ?_)
    intro index a ha b hab
    exact hR (index + 1) a (List.mem_cons_of_mem _ ha) b hab

/-! ### Terms -/

namespace FindTerm

variable {find others : List FindTerm}

/-- A variable is no mark, and a pull has no fault that reading would take from it. -/
def Settled : FindTerm → Prop
  | var text => text ≠ singleMark ∧ text ≠ manyMark
  | pull p => p.Settled
  | single => True
  | many => True

theorem settled_of_wellFormedAt {t : FindTerm} {index : Nat} (h : t.WellFormedAt find index) :
    t.Settled := by
  cases t with
  | var text =>
    rw [WellFormedAt] at h
    constructor
    · rintro rfl
      revert h
      decide
    · rintro rfl
      revert h
      decide
  | pull p => exact p.settled_of_wellFormed h
  | single => trivial
  | many => trivial

/-- A term that is no mark in disguise is read as a term of its kind, and a pull is read as such. -/
theorem reread_cases {t other : FindTerm} (ht : t.Settled)
    (h : ofJson? t.toJson.collapse = some other) :
    t = other ∨ ∃ p q, t = .pull p ∧ other = .pull q ∧ Reads Pull.decode p.toJson.collapse q := by
  cases t with
  | var text =>
    rw [toJson, Json.collapse, ofJson?, Option.some_inj, ofText_eq_var ht] at h
    exact .inl h
  | pull p =>
    rw [toJson] at h
    have hpull := h
    rw [Pull.collapse_toJson, ofJson?.eq_def, Option.map_eq_some_iff] at hpull
    obtain ⟨q, -, rfl⟩ := hpull
    exact .inr ⟨p, q, rfl, rfl, ofJson?_eq_pull_iff.mp h⟩
  | single => exact .inl (Option.some.inj h)
  | many => exact .inl (Option.some.inj h)

/-- Where no term changes its kind, the same places follow one term. -/
theorem followsOne_reread
    (h : List.Forall₂ (fun t other => ofJson? t.toJson.collapse = some other) find others)
    (hsettled : ∀ t ∈ find, t.Settled) (index : Nat) :
    FollowsOne find index ↔ FollowsOne others index := by
  rw [FollowsOne, FollowsOne, h.length_eq]
  refine and_congr_right fun _ => and_congr_right fun _ => ?_
  cases h with
  | nil => rfl
  | cons hhead _ =>
    rcases reread_cases (hsettled _ List.mem_cons_self) hhead with rfl | ⟨p, q, rfl, rfl, -⟩
    · rfl
    · simp

/-- Terms make sense exactly if what is read of them does and they have no fault to lose. -/
theorem wellFormedAt_reread
    (h : List.Forall₂ (fun t other => ofJson? t.toJson.collapse = some other) find others) :
    (∀ (index : Nat) (t : FindTerm), find[index]? = some t → t.WellFormedAt find index) ↔
      (∀ (index : Nat) (t : FindTerm), others[index]? = some t → t.WellFormedAt others index) ∧
        ∀ t ∈ find, t.Settled := by
  have hall : (∀ t ∈ find, t.Settled) →
      ((∀ (index : Nat) (t : FindTerm), find[index]? = some t → t.WellFormedAt find index) ↔
        ∀ (index : Nat) (t : FindTerm), others[index]? = some t →
          t.WellFormedAt others index) := by
    intro hsettled
    have hfollows := followsOne_reread h hsettled
    refine forall_getElem?_iff_of_forall₂ h ?_
    intro index t ht other hread
    rcases reread_cases (hsettled t ht) hread with rfl | ⟨p, q, rfl, rfl, hpull⟩
    · cases t with
      | var text => exact Iff.rfl
      | pull p => exact Iff.rfl
      | single => exact hfollows index
      | many => exact hfollows index
    · rw [WellFormedAt, WellFormedAt, Pull.wellFormed_reread hpull]
      exact and_iff_left (hsettled _ ht)
  constructor
  · intro hfind
    have hsettled : ∀ t ∈ find, t.Settled := by
      intro t ht
      obtain ⟨index, hindex⟩ := List.mem_iff_getElem?.mp ht
      exact settled_of_wellFormedAt (hfind index t hindex)
    exact ⟨(hall hsettled).mp hfind, hsettled⟩
  · intro hothers
    obtain ⟨hformed, hsettled⟩ := hothers
    exact (hall hsettled).mpr hformed

end FindTerm

/-! ### Bindings -/

namespace Binding

/-- The mark of collections is no variable, so a binding that makes sense is canonical. -/
theorem canonical_of_wellFormed {b : Binding} (h : b.WellFormed) : b.Canonical := by
  rintro var rfl
  have hmark := h.2 collectionMark (List.mem_cons_of_mem _ List.mem_cons_self)
  revert hmark
  decide

/-- A binding makes sense exactly if what is read of it does and it is canonical. -/
theorem wellFormed_reread {b other : Binding} (h : Reads decode b.toJson other) :
    b.WellFormed ↔ other.WellFormed ∧ b.Canonical := by
  by_cases hcanonical : b.Canonical
  · have hback := (reads_toJson_iff b).mpr hcanonical
    rw [Reads, h, Except.ok.injEq] at hback
    rw [hback, and_iff_left hcanonical]
  · -- What is not canonical makes no sense either, whatever is read of it.
    exact iff_of_false (fun hb => hcanonical (canonical_of_wellFormed hb)) fun h => hcanonical h.2

theorem looksBound_of_wellFormed {b : Binding} (h : b.WellFormed) : b.LooksBound := by
  cases b with
  | scalar var => exact looksLikeVariable_of_isInputVar h
  | tuple vars => trivial
  | collection var => trivial
  | relation vars => trivial

end Binding

/-! ### Clauses -/

theorem Call.literal_inj {call other : Call} : call.literal = other.literal ↔ call = other := by
  obtain ⟨name, args⟩ := call
  obtain ⟨name', args'⟩ := other
  simp [literal]

namespace Clause

/-- Of what a single input may be bound to, only logic variables may stand for attributes. -/
theorem isAttribute_text_iff {text : String} (h : isInputVar text = true) :
    IsAttribute (.text text) ↔ isLogicVar text = true := by
  rw [IsAttribute, isVarOrBlank, Bool.or_eq_true]
  constructor
  · intro hattr
    rcases hattr with (hlogic | hblank) | hqualified
    · exact hlogic
    · rw [isBlankVar, beq_iff_eq] at hblank
      subst hblank
      exact absurd h (by decide)
    · exact absurd h (Bool.eq_false_iff.mp (isInputVar_eq_false hqualified))
  · exact fun hlogic => .inl (.inl hlogic)

/-- A list alone is too short for a pattern. -/
theorem not_wellFormedPattern_literal (call : Call) : ¬ WellFormedPattern [call.literal] := by
  intro h
  have htwo : 2 ≤ [call.literal].length := h.two_le
  simp at htwo

/-- A pattern of a list and one more literal has an attribute and no other position to check. -/
theorem wellFormedPattern_pair_iff {call : Call} {second : Value} :
    WellFormedPattern [call.literal, second] ↔ IsAttribute second := by
  have hpositions : positions [call.literal, second] = [call.literal, second] := rfl
  constructor
  · exact fun h => h.attr second rfl
  · intro h
    constructor <;> rw [hpositions]
    · simp
    · simp
    · simpa using h
    · simp
    · simp

/-- A pattern that passes, and whose literals are those of a call that does not: the function has
no name, or what would be bound is no variable. -/
def Loses : Clause → Prop
  | pattern items => ∃ (call : Call) (text : String), items = [call.literal, .text text] ∧
      Binding.looksLikeVariable text = true ∧ (call.name = "" ∨ ¬ isLogicVar text = true)
  | predicate _ => False
  | function _ _ => False
  | rule _ => False

/-- No pattern looks like a call, unless like one whose result is bound to a variable, and no
binding looks like something else. -/
def Settled : Clause → Prop
  | pattern items => (∀ call : Call, items ≠ [call.literal]) ∧
      ∀ (call : Call) second, items = [call.literal, second] →
        Binding.ofValue? second ≠ none → ∃ text, second = .text text ∧ isLogicVar text = true
  | predicate _ => True
  | function _ binding => binding.Canonical ∧ binding.LooksBound
  | rule _ => True

/-- The one clause passes as the other unless it loses, and if the other passes, it does itself
exactly if it is settled. -/
def PassesAs (c other : Clause) : Prop :=
  (c.WellFormed → (other.WellFormed ↔ ¬ c.Loses)) ∧ (other.WellFormed → (c.WellFormed ↔ c.Settled))

theorem passesAs_self {c : Clause} (hloses : ¬ c.Loses) (hsettled : c.Settled) : c.PassesAs c :=
  ⟨fun hc => iff_of_true hc hloses, fun hc => iff_of_true hc hsettled⟩

theorem passesAs_of_fault {c other : Clause} (hc : ¬ c.WellFormed) (hsettled : ¬ c.Settled) :
    c.PassesAs other :=
  ⟨fun h => absurd h hc, fun _ => iff_of_false hc hsettled⟩

/-- A pattern that is read as a call with a binding passes as such unless it loses. If the call
passes, the pattern does exactly if its attribute, which is bound now, is a variable. -/
theorem passesAs_function (call : Call) {binding : Binding}
    (h : Binding.ofValue? binding.literal = some binding) :
    (pattern [call.literal, binding.literal]).PassesAs (function call binding) := by
  rw [PassesAs, WellFormed, WellFormed, wellFormedPattern_pair_iff]
  by_cases hscalar : ∃ var, binding = .scalar var
  · obtain ⟨var, rfl⟩ := hscalar
    have hlooks : Binding.looksLikeVariable var = true :=
      (Binding.ofValue?_eq_some_iff.mp h).2.2
    have hloses : (pattern [call.literal, (Binding.scalar var).literal]).Loses ↔
        call.name = "" ∨ ¬ isLogicVar var = true := by
      simp [Loses, Binding.literal, Call.literal_inj, hlooks]
    have hsettled : (pattern [call.literal, (Binding.scalar var).literal]).Settled ↔
        isLogicVar var = true := by
      simp [Settled, Binding.literal, Call.literal_inj, Binding.ofValue?, hlooks]
    rw [hloses, hsettled, Binding.WellFormed, Binding.literal, not_or, not_not]
    constructor
    · intro hattr
      refine and_congr_right fun _ => ?_
      constructor
      · exact fun hinput => (isAttribute_text_iff hinput).mp hattr
      · intro hlogic
        rw [isInputVar, hlogic, Bool.true_or, Bool.true_or]
    · intro hfunction
      exact isAttribute_text_iff hfunction.2
  · -- All other bindings are lists, and a list is no attribute.
    obtain ⟨items, hliteral⟩ : ∃ items, binding.literal = .list items := by
      cases binding with
      | scalar var => exact absurd ⟨var, rfl⟩ hscalar
      | tuple vars => exact ⟨_, rfl⟩
      | collection var => exact ⟨_, rfl⟩
      | relation vars => exact ⟨_, rfl⟩
    have hattr : ¬ IsAttribute binding.literal := by
      rw [hliteral]
      exact not_false
    have hsettled : ¬ (pattern [call.literal, binding.literal]).Settled := by
      intro hsettled
      obtain ⟨text, htext, -⟩ := hsettled.2 call _ rfl (by simp [h])
      rw [hliteral] at htext
      cases htext
    exact ⟨fun hpattern => absurd hpattern hattr, fun _ => iff_of_false hattr hsettled⟩

theorem passesAs_rule {usage : RuleUsage} {other : Clause}
    (h : ofJson? (rule usage).toJson = some other) (hsame : other.toJson = (rule usage).toJson) :
    (rule usage).PassesAs other := by
  have hother : ∃ r, other = .rule r := by
    by_contra hrule
    rw [not_exists] at hrule
    obtain ⟨-, items, hitems, -⟩ := (ofJson?_eq_some_iff hrule).mp h
    rw [toJson, RuleUsage.toJson_eq] at hitems
    cases hitems
  obtain ⟨r, rfl⟩ := hother
  -- The arguments may have been read otherwise, but only the name is checked.
  rw [toJson, toJson, RuleUsage.toJson_eq, RuleUsage.toJson_eq] at hsame
  have hname : r.name = usage.name := by
    simp only [List.map_cons, Value.toJson, Json.obj.injEq, List.cons.injEq, Prod.mk.injEq,
      Json.arr.injEq, Json.str.injEq] at hsame
    exact hsame.2.1.2.1
  have hformed : (rule usage).WellFormed ↔ (rule r).WellFormed := by
    rw [WellFormed, WellFormed, hname]
  exact ⟨fun hc => iff_of_true (hformed.mp hc) not_false,
    fun hr => iff_of_true (hformed.mpr hr) trivial⟩

theorem passesAs_ofItems (items : List Value) : (pattern items).PassesAs (ofItems items) := by
  rcases ofItems_cases items with
    ⟨call, rfl, -⟩ | ⟨call, binding, rfl, hbinding, hitems⟩ | ⟨hone, htwo, hitems⟩
  · exact passesAs_of_fault (not_wellFormedPattern_literal call) fun hsettled =>
      hsettled.1 call rfl
  · rw [hitems]
    exact passesAs_function call hbinding
  · rw [hitems]
    refine passesAs_self ?_ ⟨hone, ?_⟩
    · rintro ⟨call, text, hpair, hlooks, -⟩
      have hnone := htwo call _ hpair
      rw [Binding.ofValue?, if_pos hlooks] at hnone
      cases hnone
    · intro call second hpair hsome
      exact absurd (htwo call second hpair) hsome

/-- A clause and the clause that was read of it pass alike, but for the patterns that lose by
reading and for the clauses whose faults do not show. -/
theorem passesAs_reread {c other : Clause} (h : ofJson? c.toJson = some other)
    (hsame : other.toJson = c.toJson) : c.PassesAs other := by
  cases c with
  | rule usage => exact passesAs_rule h hsame
  | predicate call =>
    obtain ⟨-, -, rfl⟩ := (reread_iff (by simp)).mp ⟨h, hsame⟩
    exact passesAs_self not_false trivial
  | function call binding =>
    obtain ⟨-, -, rfl⟩ := (reread_iff (by simp)).mp ⟨h, hsame⟩
    by_cases hbinding : binding.Canonical ∧ binding.LooksBound
    · rw [literals, ofItems_eq_function_iff.mpr hbinding]
      exact passesAs_self not_false hbinding
    · refine passesAs_of_fault ?_ hbinding
      intro hc
      exact hbinding ⟨Binding.canonical_of_wellFormed hc.2, Binding.looksBound_of_wellFormed hc.2⟩
  | pattern items =>
    obtain ⟨-, -, rfl⟩ := (reread_iff (by simp)).mp ⟨h, hsame⟩
    exact passesAs_ofItems items

end Clause

/-! ### Documents -/

namespace Document

variable {d e : Document}

/-- What is read of a written document, section by section. -/
structure Reread (d e : Document) : Prop where
  find : List.Forall₂ (fun t other => FindTerm.ofJson? t.toJson.collapse = some other) d.find e.find
  keys : e.keys = d.keys
  inputs_isSome : d.inputs.isSome = e.inputs.isSome
  inputs : List.Forall₂ (fun (b : Binding) other => Reads Binding.decode b.toJson other)
    (d.inputs.getD []) (e.inputs.getD [])
  clauses_isSome : d.clauses.isSome = e.clauses.isSome
  clauses : List.Forall₂ (fun (c : Clause) other => Clause.ofJson? c.toJson = some other)
    (d.clauses.getD []) (e.clauses.getD [])
  args_isSome : d.args.isSome = e.args.isSome
  args_length : (d.args.getD []).length = (e.args.getD []).length

theorem reread_of_ofJson (h : ofJson d.toJson = .ok e) : d.Reread e := by
  rw [ofJson_toJson_eq_ok_iff] at h
  -- Each section is read item by item.
  simp only [memberRead_written_iff, Json.reads_each_iff, Json.arr.injEq, exists_eq_left',
    List.forall₂_map_left_iff, FindTerm.reads_decode_iff, Clause.reads_decode_iff,
    Json.reads_text_iff, Json.str.injEq] at h
  obtain ⟨hfind, ⟨hkeysSome, hkeys⟩, hinputs, hclauses, hargs⟩ := h
  have hkeysSame : e.keys = d.keys := by
    have htexts : d.keys.getD [] = e.keys.getD [] := by
      rw [← List.forall₂_eq_eq_eq]
      exact hkeys
    cases hd : d.keys <;> cases he : e.keys <;> simp_all
  exact ⟨hfind, hkeysSame, hinputs.1, hinputs.2, hclauses.1, hclauses.2, hargs.1,
    hargs.2.length_eq⟩

/-- Some pattern passes, and does not as what it is read as. -/
def Loses (d : Document) : Prop := ∃ c ∈ d.clauses.getD [], c.Loses

/-- No part has a fault that reading would take from it. -/
structure Settled (d : Document) : Prop where
  find : ∀ t ∈ d.find, t.Settled
  inputs : ∀ b ∈ d.inputs.getD [], b.Canonical
  clauses : ∀ c ∈ d.clauses.getD [], c.Settled

/-- Apart from the clauses, a document makes sense. -/
structure WellFormedAround (d : Document) : Prop where
  find_ne_nil : d.find ≠ []
  terms : ∀ (index : Nat) (term : FindTerm), d.find[index]? = some term →
    term.WellFormedAt d.find index
  keys : ∀ keys, d.keys = some keys →
    keys.length = d.find.length ∧ (∀ key ∈ keys, key ≠ "") ∧ keys.Nodup
  args : ∀ args inputs, d.args = some args → d.inputs = some inputs → args.length ≤ inputs.length
  inputs : ∀ b ∈ d.inputs.getD [], b.WellFormed

theorem wellFormed_iff_around :
    d.WellFormed ↔ d.WellFormedAround ∧ ∀ c ∈ d.clauses.getD [], c.WellFormed := by
  constructor
  · intro h
    exact ⟨⟨h.find_ne_nil, h.terms, h.keys, h.args, h.inputs⟩, h.clauses⟩
  · intro h
    obtain ⟨⟨hfind, hterms, hkeys, hargs, hinputs⟩, hclauses⟩ := h
    exact ⟨hfind, hterms, hkeys, hargs, hinputs, hclauses⟩

/-- How many arguments there may be is told by the lengths of both sections, where both are. -/
theorem args_le_inputs_iff :
    (∀ args inputs, d.args = some args → d.inputs = some inputs →
        args.length ≤ inputs.length) ↔
      (d.args.isSome = true → d.inputs.isSome = true →
        (d.args.getD []).length ≤ (d.inputs.getD []).length) := by
  cases d.args <;> cases d.inputs <;> simp

/-- Apart from its clauses a document makes sense exactly if what is read of it does and it has no
fault to lose. -/
theorem wellFormedAround_reread (h : d.Reread e) :
    d.WellFormedAround ↔ e.WellFormedAround ∧
      (∀ t ∈ d.find, t.Settled) ∧ ∀ b ∈ d.inputs.getD [], b.Canonical := by
  have hterms := FindTerm.wellFormedAt_reread h.find
  have hinputs := forall_mem_iff_of_forall₂ h.inputs
    fun b _ other _ hread => Binding.wellFormed_reread hread
  have hempty : d.find ≠ [] ↔ e.find ≠ [] := by
    rw [← List.length_pos_iff, h.find.length_eq, List.length_pos_iff]
  have hargs : (∀ args inputs, d.args = some args → d.inputs = some inputs →
      args.length ≤ inputs.length) ↔ ∀ args inputs, e.args = some args →
        e.inputs = some inputs → args.length ≤ inputs.length := by
    rw [args_le_inputs_iff, args_le_inputs_iff, h.args_isSome, h.inputs_isSome, h.args_length,
      h.inputs.length_eq]
  constructor
  · intro hd
    obtain ⟨hterms', hsettled⟩ := hterms.mp hd.terms
    obtain ⟨hinputs', hcanonical⟩ := hinputs.mp hd.inputs
    have hkeys := hd.keys
    rw [← h.keys, h.find.length_eq] at hkeys
    exact ⟨⟨hempty.mp hd.find_ne_nil, hterms', hkeys, hargs.mp hd.args, hinputs'⟩, hsettled,
      hcanonical⟩
  · intro he
    obtain ⟨he, hsettled, hcanonical⟩ := he
    have hkeys := he.keys
    rw [h.keys, ← h.find.length_eq] at hkeys
    exact ⟨hempty.mpr he.find_ne_nil, hterms.mpr ⟨he.terms, hsettled⟩, hkeys,
      hargs.mpr he.args, hinputs.mpr ⟨he.inputs, hcanonical⟩⟩

/-- Clauses of the same form were read of each other one by one. -/
theorem clauses_reread (h : d.Reread e)
    (hsame : e.toJson.member? "where" = d.toJson.member? "where") :
    List.Forall₂ (fun (c : Clause) other =>
      Clause.ofJson? c.toJson = some other ∧ other.toJson = c.toJson)
        (d.clauses.getD []) (e.clauses.getD []) := by
  have hmember : ∀ d : Document, d.toJson.member? "where" =
      d.clauses.map fun clauses => .arr (clauses.map Clause.toJson) := by
    intro d
    rw [toJson_eq, Json.member?]
    simp [members, Json.lookup_cons, Json.lookup_append, lookup_memberIf]
  have hforms : (e.clauses.getD []).map Clause.toJson = (d.clauses.getD []).map Clause.toJson := by
    rw [hmember, hmember] at hsame
    cases hd : d.clauses <;> cases he : e.clauses <;> simp_all
  have hpairs : List.Forall₂ (fun (c : Clause) (other : Clause) => other.toJson = c.toJson)
      (d.clauses.getD []) (e.clauses.getD []) := by
    rw [← List.forall₂_map_left_iff (f := Clause.toJson)
      (R := fun j (other : Clause) => other.toJson = j), ← hforms, List.forall₂_map_left_iff,
      List.forall₂_same]
    exact fun _ _ => rfl
  exact h.clauses.mp (fun c other hread hform => ⟨hread, hform⟩) hpairs

/-- A document and what is read of it pass alike, provided the clauses are written the same again,
except that a document that passes may lose a pattern by being read, and one that fails may lose
its faults. -/
theorem validate_reread (hread : ofJson d.toJson = .ok e)
    (hsame : e.toJson.member? "where" = d.toJson.member? "where") :
    (d.validate = .ok () → (e.validate = .ok () ↔ ¬ d.Loses)) ∧
      (e.validate = .ok () → (d.validate = .ok () ↔ d.Settled)) := by
  have h := reread_of_ofJson hread
  have hclauses := clauses_reread h hsame
  have haround := wellFormedAround_reread h
  rw [validate_eq_ok_iff, validate_eq_ok_iff, wellFormed_iff_around, wellFormed_iff_around]
  constructor
  · intro hd
    obtain ⟨hd, hdclauses⟩ := hd
    -- Apart from its clauses a document that passes cannot fail by being read.
    have he : e.WellFormedAround := (haround.mp hd).1
    have hloses : (∀ c ∈ d.clauses.getD [], ¬ c.Loses) ↔
        (∀ other ∈ e.clauses.getD [], other.WellFormed) ∧ ∀ c ∈ d.clauses.getD [], True := by
      refine forall_mem_iff_of_forall₂ hclauses ?_
      intro c hc other _ hother
      obtain ⟨hform, hsame⟩ := hother
      rw [and_true]
      exact ((Clause.passesAs_reread hform hsame).1 (hdclauses c hc)).symm
    have hnot : ¬ d.Loses ↔ ∀ c ∈ d.clauses.getD [], ¬ c.Loses := by
      simp [Loses]
    rw [and_iff_right he, hnot, hloses, and_iff_left fun _ _ => trivial]
  · intro he
    obtain ⟨he, heclauses⟩ := he
    have hsettled : (∀ c ∈ d.clauses.getD [], c.WellFormed) ↔
        (∀ other ∈ e.clauses.getD [], True) ∧ ∀ c ∈ d.clauses.getD [], c.Settled := by
      refine forall_mem_iff_of_forall₂ hclauses ?_
      intro c _ other hother hread
      obtain ⟨hform, hsame⟩ := hread
      rw [true_and]
      exact (Clause.passesAs_reread hform hsame).2 (heclauses other hother)
    rw [haround, hsettled, and_iff_right he, and_iff_right fun _ _ => trivial]
    constructor
    · intro h
      obtain ⟨⟨hfind, hinputs⟩, hclauses⟩ := h
      exact ⟨hfind, hinputs, hclauses⟩
    · intro h
      exact ⟨⟨h.find, h.inputs⟩, h.clauses⟩

/-- A document of a pattern with two positions, a reference by an attribute and the blank. -/
def blankAttribute : Document where
  find := [.var "?e"]
  clauses := some [.pattern [.list [.text "user/email", .text "x"], .text "_"]]

/-- What it is read as: a call of which the result is bound to the blank. -/
def blankBinding : Document where
  find := [.var "?e"]
  clauses := some [.function ⟨"user/email", [.text "x"]⟩ (.scalar "_")]

/-- The form is kept, and yet only the first of the two passes. -/
theorem blankAttribute_verdict :
    ofJson blankAttribute.toJson = .ok blankBinding ∧
      blankBinding.toJson = blankAttribute.toJson ∧
      blankAttribute.validate = .ok () ∧ blankBinding.validate ≠ .ok () := by
  refine ⟨rfl, rfl, rfl, ?_⟩
  intro h
  cases h

/-- A document that pulls an attribute of the name of the wildcard, where a pattern looks like a
call of which the result is bound to a variable. -/
def namedAsterisk : Document where
  find := [.pull ⟨[.name "*"], "?e"⟩]
  clauses := some [.pattern [.list [.text "user/email", .text "x"], .text "?a"]]

/-- What it is read as: the wildcard is pulled. -/
def pulledWildcard : Document where
  find := [.pull ⟨[.wildcard], "?e"⟩]
  clauses := some [.function ⟨"user/email", [.text "x"]⟩ (.scalar "?a")]

theorem namedAsterisk_verdict :
    ofJson namedAsterisk.toJson = .ok pulledWildcard ∧
      pulledWildcard.toJson.member? "where" = namedAsterisk.toJson.member? "where" ∧
      pulledWildcard.validate = .ok () ∧ namedAsterisk.validate ≠ .ok () := by
  have hread : ofJson namedAsterisk.toJson = .ok pulledWildcard := rfl
  have hsame : pulledWildcard.toJson.member? "where" = namedAsterisk.toJson.member? "where" := rfl
  have hpasses : pulledWildcard.validate = .ok () := rfl
  refine ⟨hread, hsame, hpasses, ?_⟩
  rw [Ne, (validate_reread hread hsame).2 hpasses]
  intro hsettled
  -- The name is in the pattern of the pull, and it is the asterisk.
  exact hsettled.find _ List.mem_cons_self (.name "*") List.mem_cons_self rfl

end Document

end DatalogClient
