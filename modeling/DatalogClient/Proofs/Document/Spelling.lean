import DatalogClient.Document.Spelling
import Mathlib.Data.List.TakeWhile

/-!
# What the spellings accept

Which texts are variables, attributes and aggregates, told by their characters. A variable has one
of three signs before its symbol and no slash, and an attribute has just one slash, so that no text
is both.

## Main definitions

* `Spelling.IsSymbol` — the characters are those of a symbol
* `Spelling.Qualifies` — a namespace and a name make up the text of an attribute

## Main results

* `Spelling.isLogicVar_iff`, `Spelling.isSourceVar_iff`, `Spelling.isInputVar_iff` — variables
* `Spelling.isQualifiedAttr_iff`, `Spelling.Qualifies.unique` — attributes, and their parts
* `Spelling.isAggregate_iff` — aggregates
* `Spelling.isInputVar_eq_false` — an attribute is no variable
-/

namespace DatalogClient.Spelling

variable {text : String}

/-! ### Variables -/

/-- The characters are ASCII letters and digits and the signs of a symbol. -/
def IsSymbol (chars : List Char) : Prop :=
  ∀ c ∈ chars, c.isAlphanum = true ∨ c ∈ ['_', '-', '*', '+', '!', '.']

theorem all_isSymbolChar_iff {chars : List Char} :
    chars.all isSymbolChar = true ↔ IsSymbol chars := by
  simp [IsSymbol, isSymbolChar, or_assoc]

theorem IsSymbol.slash_notMem {chars : List Char} (h : IsSymbol chars) : '/' ∉ chars := by
  intro hslash
  exact absurd (h '/' hslash) (by decide)

/-- A logic variable is a question mark and a symbol that is not empty. -/
theorem isLogicVar_iff :
    isLogicVar text = true ↔ ∃ name, text.toList = '?' :: name ∧ name ≠ [] ∧ IsSymbol name := by
  rw [isLogicVar.eq_def]
  split
  next rest htext =>
    rw [Bool.and_eq_true, all_isSymbolChar_iff, htext]
    simp
  next hother =>
    refine iff_of_false Bool.false_ne_true ?_
    rintro ⟨name, htext, -⟩
    exact hother name htext

/-- A source is a dollar sign, alone or with a symbol. -/
theorem isSourceVar_iff :
    isSourceVar text = true ↔ ∃ name, text.toList = '$' :: name ∧ IsSymbol name := by
  rw [isSourceVar.eq_def]
  split
  next rest htext =>
    rw [all_isSymbolChar_iff, htext]
    simp
  next hother =>
    refine iff_of_false Bool.false_ne_true ?_
    rintro ⟨name, htext, -⟩
    exact hother name htext

theorem isRulesVar_iff : isRulesVar text = true ↔ text.toList = ['%'] := by
  rw [isRulesVar, beq_iff_eq, ← String.toList_inj]
  rfl

/-- What a single input may be bound to is one of three signs and a symbol. The question mark needs
a symbol that is not empty, and the percent sign stands alone. -/
theorem isInputVar_iff :
    isInputVar text = true ↔ ∃ sign name, text.toList = sign :: name ∧ IsSymbol name ∧
      (sign = '?' ∧ name ≠ [] ∨ sign = '$' ∨ sign = '%' ∧ name = []) := by
  rw [isInputVar, Bool.or_eq_true, Bool.or_eq_true, isLogicVar_iff, isSourceVar_iff, isRulesVar_iff]
  constructor
  · rintro ((⟨name, htext, hname, hsymbol⟩ | ⟨name, htext, hsymbol⟩) | htext)
    · exact ⟨_, name, htext, hsymbol, .inl ⟨rfl, hname⟩⟩
    · exact ⟨_, name, htext, hsymbol, .inr (.inl rfl)⟩
    · exact ⟨_, [], htext, List.forall_mem_nil _, .inr (.inr ⟨rfl, rfl⟩)⟩
  · rintro ⟨sign, name, htext, hsymbol, ⟨rfl, hname⟩ | rfl | ⟨rfl, rfl⟩⟩
    · exact .inl (.inl ⟨name, htext, hname, hsymbol⟩)
    · exact .inl (.inr ⟨name, htext, hsymbol⟩)
    · exact .inr htext

/-! ### Attributes -/

/-- The text is the namespace and the name with a slash between. There is no other slash and no
space, and neither of the two is empty. A colon at the beginning does not count. -/
structure Qualifies (nameSpace name : List Char) (text : String) : Prop where
  text_eq : text.toList = nameSpace ++ '/' :: name
  nameSpace_ne : nameSpace ≠ [] ∧ nameSpace ≠ [':']
  name_ne : name ≠ []
  slash_notMem : '/' ∉ nameSpace ∧ '/' ∉ name
  space_notMem : ' ' ∉ text.toList

theorem takeWhile_before_slash {front : List Char} (h : '/' ∉ front) (back : List Char) :
    (front ++ '/' :: back).takeWhile (· != '/') = front ∧
      (front ++ '/' :: back).dropWhile (· != '/') = '/' :: back := by
  have hfront : ∀ c ∈ front, (c != '/') = true := fun c hc =>
    bne_iff_ne.mpr fun heq => h (heq ▸ hc)
  rw [List.takeWhile_append_of_pos hfront, List.dropWhile_append_of_pos hfront]
  exact ⟨List.append_nil front, rfl⟩

/-- The part before the first slash and the part behind it. -/
theorem exists_slash_of_dropWhile {chars rest : List Char} {c : Char}
    (h : chars.dropWhile (· != '/') = c :: rest) :
    c = '/' ∧ chars = chars.takeWhile (· != '/') ++ '/' :: rest := by
  have hc : c = '/' := by
    have hhead := List.head?_dropWhile_not (· != '/') chars
    rw [h] at hhead
    simpa using hhead
  subst hc
  exact ⟨rfl, by rw [← h, List.takeWhile_append_dropWhile]⟩

/-- An attribute, by what is left of it without a colon at its beginning. -/
theorem isQualifiedAttr_iff_dropColon :
    isQualifiedAttr text = true ↔ ∃ front name, dropColon text.toList = front ++ '/' :: name ∧
      front ≠ [] ∧ name ≠ [] ∧ ('/' ∉ front ∧ '/' ∉ name) ∧ ' ' ∉ dropColon text.toList := by
  rw [isQualifiedAttr]
  generalize dropColon text.toList = chars
  constructor
  · intro h
    cases hrest : chars.dropWhile (· != '/') with
    | nil => simp [hrest] at h
    | cons c name =>
      obtain ⟨rfl, hchars⟩ := exists_slash_of_dropWhile hrest
      simp only [hrest, Bool.and_eq_true, Bool.not_eq_true', List.isEmpty_eq_false_iff,
        List.contains_eq_mem, decide_eq_false_iff_not] at h
      obtain ⟨⟨⟨hfront, hname⟩, hslash⟩, hspace⟩ := h
      have hnone : '/' ∉ chars.takeWhile (· != '/') := by
        intro hmem
        simpa using List.mem_takeWhile_imp hmem
      exact ⟨_, name, hchars, hfront, hname, ⟨hnone, hslash⟩, hspace⟩
  · rintro ⟨front, name, rfl, hfront, hname, ⟨hnone, hslash⟩, hspace⟩
    obtain ⟨htake, hdrop⟩ := takeWhile_before_slash hnone name
    rw [hdrop, htake]
    simp only [Bool.and_eq_true, Bool.not_eq_true', List.isEmpty_eq_false_iff,
      List.contains_eq_mem, decide_eq_false_iff_not]
    exact ⟨⟨⟨hfront, hname⟩, hslash⟩, hspace⟩

/-- An attribute is made up of a namespace and a name. -/
theorem isQualifiedAttr_iff :
    isQualifiedAttr text = true ↔ ∃ nameSpace name, Qualifies nameSpace name text := by
  rw [isQualifiedAttr_iff_dropColon, dropColon.eq_def]
  split
  next rest htext =>
    -- The colon belongs to the namespace, which therefore is more than the colon.
    constructor
    · rintro ⟨front, name, rfl, hfront, hname, ⟨hnone, hslash⟩, hspace⟩
      exact ⟨':' :: front, name, htext, ⟨List.cons_ne_nil _ _, by simpa using hfront⟩, hname,
        ⟨by simpa using hnone, hslash⟩, by simpa [htext] using hspace⟩
    · rintro ⟨nameSpace, name, htext', hne, hname, hslash, hspace⟩
      cases nameSpace with
      | nil => exact (hne.1 rfl).elim
      | cons c front =>
        obtain ⟨rfl, hrest⟩ := List.cons.inj (htext.symm.trans htext')
        simp only [List.mem_cons, not_or] at hslash
        rw [htext, List.mem_cons, not_or] at hspace
        exact ⟨front, name, hrest, by simpa using hne.2, hname, ⟨hslash.1.2, hslash.2⟩, hspace.2⟩
  next hcolon =>
    constructor
    · rintro ⟨front, name, htext, hfront, hname, hslash, hspace⟩
      refine ⟨front, name, htext, ⟨hfront, ?_⟩, hname, hslash, hspace⟩
      rintro rfl
      exact hcolon _ htext
    · rintro ⟨nameSpace, name, htext, hne, hname, hslash, hspace⟩
      exact ⟨nameSpace, name, htext, hne.1, hname, hslash, hspace⟩

/-- An attribute has one namespace and one name. -/
theorem Qualifies.unique {nameSpace name nameSpace' name' : List Char}
    (h : Qualifies nameSpace name text) (h' : Qualifies nameSpace' name' text) :
    nameSpace = nameSpace' ∧ name = name' := by
  obtain ⟨htake, hdrop⟩ := takeWhile_before_slash h.slash_notMem.1 name
  obtain ⟨htake', hdrop'⟩ := takeWhile_before_slash h'.slash_notMem.1 name'
  rw [← h.text_eq] at htake hdrop
  rw [← h'.text_eq] at htake' hdrop'
  exact ⟨htake.symm.trans htake', (List.cons.inj (hdrop.symm.trans hdrop')).2⟩

/-- What a single input may be bound to has no slash, so an attribute is none of it. -/
theorem isInputVar_eq_false (h : isQualifiedAttr text = true) : isInputVar text = false := by
  obtain ⟨nameSpace, name, hparts⟩ := isQualifiedAttr_iff.mp h
  rw [Bool.eq_false_iff, ne_eq, isInputVar_iff]
  rintro ⟨sign, symbol, htext, hsymbol, hsign⟩
  have hslash : '/' ∈ sign :: symbol := by
    rw [← htext, hparts.text_eq]
    simp
  rcases List.mem_cons.mp hslash with rfl | hmem
  · simp at hsign
  · exact hsymbol.slash_notMem hmem

/-! ### Aggregates -/

/-- An aggregate is something between parentheses. -/
theorem isAggregate_iff :
    isAggregate text = true ↔ ∃ inner, inner ≠ [] ∧ text.toList = '(' :: inner ++ [')'] := by
  rw [isAggregate, Bool.and_eq_true, Bool.and_eq_true, beq_iff_eq, beq_iff_eq, decide_eq_true_iff]
  constructor
  · rintro ⟨⟨hfirst, hlast⟩, hlength⟩
    obtain ⟨rest, hrest⟩ := List.head?_eq_some_iff.mp hfirst
    obtain ⟨front, hfront⟩ := List.getLast?_eq_some_iff.mp hlast
    cases front with
    | nil => simp [hfront] at hlength
    | cons c inner =>
      obtain ⟨rfl, -⟩ := List.cons.inj (hrest.symm.trans hfront)
      refine ⟨inner, ?_, hfront⟩
      rintro rfl
      simp [hfront] at hlength
  · rintro ⟨inner, hinner, htext⟩
    rw [htext]
    have hpos := List.length_pos_iff.mpr hinner
    refine ⟨⟨rfl, List.getLast?_concat⟩, ?_⟩
    simp only [List.length_append, List.length_cons, List.length_nil]
    omega

end DatalogClient.Spelling
