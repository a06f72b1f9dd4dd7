import Mathlib.Data.List.Basic

/-!
# Lines of a text

A line feed ends a line, and what stands after the last line feed is a line if it is not empty. A
text that does not end by a line feed has a line more than line feeds. Texts of that sort that are
joined by line feeds have the lines that they have alone.

## Main definitions

* `Text.OneLine` — a text without line feeds
* `Text.Ended` — a text that ends by something else
* `Text.lines` — the lines of a text

## Main results

* `Text.lines_intercalate` — the lines of texts that are joined
* `Text.length_flatMap_lines` — the number of lines of several texts
-/

namespace DatalogClient.Text

/-- No line feed stands in the text. -/
def OneLine (text : String) : Prop := '\n' ∉ text.toList

instance (text : String) : Decidable (OneLine text) := inferInstanceAs (Decidable (_ ∉ _))

@[simp] theorem oneLine_append {a b : String} : OneLine (a ++ b) ↔ OneLine a ∧ OneLine b := by
  simp [OneLine]

theorem oneLine_ofList {chars : List Char} (h : '\n' ∉ chars) : OneLine (String.ofList chars) := by
  rwa [OneLine, String.toList_ofList]

/-- The text is not empty, and its last character is no line feed. -/
def Ended (text : String) : Prop := ∃ before c, text.toList = before ++ [c] ∧ c ≠ '\n'

theorem Ended.append_left {b : String} (h : Ended b) (a : String) : Ended (a ++ b) := by
  obtain ⟨before, c, hb, hc⟩ := h
  exact ⟨a.toList ++ before, c, by rw [String.toList_append, hb, List.append_assoc], hc⟩

theorem Ended.ne_empty {text : String} (h : Ended text) : text ≠ "" := by
  obtain ⟨before, c, htext, -⟩ := h
  rintro rfl
  simp at htext

theorem OneLine.ended {text : String} (h : OneLine text) (hne : text ≠ "") : Ended text := by
  have hlist : text.toList ≠ [] := by simpa using hne
  refine ⟨text.toList.dropLast, text.toList.getLast hlist, ?_, ?_⟩
  · rw [List.dropLast_append_getLast]
  · intro hlast
    exact h (hlast ▸ List.getLast_mem hlist)

/-- The lines of some characters. -/
def linesOf : List Char → List (List Char)
  | [] => []
  | c :: rest =>
    if c = '\n' then [] :: linesOf rest
    else
      match linesOf rest with
      | [] => [[c]]
      | line :: more => (c :: line) :: more

/-- The lines of a text, without the line feeds that end them. -/
def lines (text : String) : List String := (linesOf text.toList).map String.ofList

/-- There is a line more than line feeds, unless the last character is one. -/
theorem length_linesOf {before : List Char} {c : Char} (hc : c ≠ '\n') :
    (linesOf (before ++ [c])).length = before.count '\n' + 1 := by
  induction before with
  | nil => simp [linesOf, hc]
  | cons d before ih =>
    have hne : linesOf (before ++ [c]) ≠ [] := List.ne_nil_of_length_eq_add_one ih
    obtain ⟨line, more, heq⟩ := List.exists_cons_of_ne_nil hne
    rw [heq] at ih
    rw [List.cons_append, linesOf, heq]
    split
    next hd => simpa [hd] using ih
    next hd => simpa [List.count_cons_of_ne hd] using ih

/-- A line feed after a text that is not ended by one ends the last line of it. -/
theorem linesOf_append {before : List Char} {c : Char} (hc : c ≠ '\n') (rest : List Char) :
    linesOf (before ++ c :: '\n' :: rest) = linesOf (before ++ [c]) ++ linesOf rest := by
  induction before with
  | nil => simp [linesOf, hc]
  | cons d before ih =>
    -- The first line of what follows is the one that the new character begins or goes on.
    have hne : linesOf (before ++ [c]) ≠ [] := List.ne_nil_of_length_eq_add_one (length_linesOf hc)
    obtain ⟨line, more, heq⟩ := List.exists_cons_of_ne_nil hne
    rw [List.cons_append, List.cons_append, linesOf, linesOf, ih, heq]
    split <;> rfl

theorem linesOf_eq_singleton {chars : List Char} (h : '\n' ∉ chars) (hne : chars ≠ []) :
    linesOf chars = [chars] := by
  induction chars with
  | nil => exact absurd rfl hne
  | cons c rest ih =>
    rw [List.mem_cons, not_or] at h
    rw [linesOf, if_neg (Ne.symm h.1)]
    by_cases hrest : rest = []
    · rw [hrest, linesOf]
    · rw [ih h.2 hrest]

/-! ### Texts that are joined -/

variable {a : String} {texts : List String}

theorem lines_eq_singleton (h : OneLine a) (hne : a ≠ "") : lines a = [a] := by
  rw [lines, linesOf_eq_singleton h (by simpa using hne), List.map_singleton, String.ofList_toList]

/-- There is a line more than line feeds, unless the last character is one. -/
theorem length_lines (h : Ended a) : (lines a).length = a.toList.count '\n' + 1 := by
  obtain ⟨before, c, ha, hc⟩ := h
  rw [lines, List.length_map, ha, length_linesOf hc, List.count_append,
    List.count_singleton, if_neg (by simpa using hc), Nat.add_zero]

theorem lines_append (h : Ended a) (b : String) : lines (a ++ "\n" ++ b) = lines a ++ lines b := by
  obtain ⟨before, c, ha, hc⟩ := h
  have heq : (a ++ "\n" ++ b).toList = before ++ c :: '\n' :: b.toList := by simp [ha]
  rw [lines, heq, linesOf_append hc, List.map_append, ← ha, lines, lines]

/-- Texts that are joined by line feeds have the lines that they have alone. -/
theorem lines_intercalate (h : ∀ text ∈ texts, Ended text) (hne : texts ≠ []) :
    lines ("\n".intercalate texts) = texts.flatMap lines := by
  induction texts with
  | nil => exact absurd rfl hne
  | cons text rest ih =>
    rw [List.forall_mem_cons] at h
    cases rest with
    | nil => simp
    | cons next rest =>
      rw [List.flatMap_cons, String.intercalate_cons_cons, lines_append h.1,
        ih h.2 (List.cons_ne_nil _ _)]

/-- Texts have a line each, and one more for each line feed. -/
theorem length_flatMap_lines (h : ∀ text ∈ texts, Ended text) :
    (texts.flatMap lines).length = texts.length + (texts.flatMap String.toList).count '\n' := by
  induction texts with
  | nil => rfl
  | cons text rest ih =>
    rw [List.forall_mem_cons] at h
    rw [List.flatMap_cons, List.length_append, length_lines h.1, ih h.2, List.flatMap_cons,
      List.count_append, List.length_cons]
    omega

/-- Texts have a line each exactly if none has a line feed. -/
theorem length_flatMap_lines_eq_iff (h : ∀ text ∈ texts, Ended text) :
    (texts.flatMap lines).length = texts.length ↔ ∀ text ∈ texts, OneLine text := by
  rw [length_flatMap_lines h, Nat.add_eq_left, List.count_eq_zero, List.mem_flatMap]
  simp only [not_exists, not_and, OneLine]

theorem flatMap_lines_eq_self (h : ∀ text ∈ texts, Ended text)
    (honeLine : ∀ text ∈ texts, OneLine text) : texts.flatMap lines = texts := by
  have hsingle : ∀ text ∈ texts, lines text = [text] := fun text ht =>
    lines_eq_singleton (honeLine text ht) (h text ht).ne_empty
  rw [List.flatMap_congr hsingle, List.flatMap_singleton']

end DatalogClient.Text
