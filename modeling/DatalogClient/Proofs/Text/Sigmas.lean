import DatalogClient.Text.Lowercase
import Mathlib.Data.List.Infix
import Mathlib.Data.List.TakeWhile

/-!
# Capital sigmas in context

Lower-casing goes character by character, and only the form of a capital sigma depends on what
stands around it: it ends a word if a cased letter stands before it and none after it. A text that
is lower-cased alone may therefore differ from the same text lower-cased where it stands in another.
It never does exactly if what stands in the text itself decides the form of each of its sigmas.

## Main definitions

* `lowercaseBetween` — the lower-case form of a text between two others
* `SigmasSettled` — the form of each sigma in a text is decided by the text

## Main results

* `lowercaseFrom_append` — a text in lower case, in two parts
* `settled_iff` — a sigma is settled exactly if nothing around the text changes its form
* `lowercaseBetween_of_settled` — a settled text has one lower-case form everywhere
* `counts_lowercaseBetween_lt` — where a sigma changes its form there are fewer of one form
* `exists_not_infix_of_not_settled` — a text that is not settled may stand where its lower-case form
  does not occur
-/

namespace DatalogClient.Text

/-! ### Cased letters behind what is passed over -/

variable {before after pre post s t : List Char}

/-- Behind a character that is not passed over nothing matters. -/
theorem meetsCasedLetter_append_of_exists (h : ∃ c ∈ s, isCaseIgnorable c = false) :
    meetsCasedLetter (s ++ t) = meetsCasedLetter s := by
  have hne : s.dropWhile isCaseIgnorable ≠ [] := by
    obtain ⟨c, hc, hstays⟩ := h
    rw [Ne, List.dropWhile_eq_nil_iff]
    intro hall
    rw [hall c hc] at hstays
    cases hstays
  obtain ⟨c, rest, hrest⟩ := List.exists_cons_of_ne_nil hne
  simp [meetsCasedLetter, List.dropWhile_append, hrest]

/-- What is passed over does not matter. -/
theorem meetsCasedLetter_append_of_forall (h : ∀ c ∈ s, isCaseIgnorable c = true) :
    meetsCasedLetter (s ++ t) = meetsCasedLetter t := by
  have hnil : s.dropWhile isCaseIgnorable = [] := List.dropWhile_eq_nil_iff.mpr h
  simp [meetsCasedLetter, List.dropWhile_append, hnil]

/-- Where everything is passed over nothing is met. -/
theorem meetsCasedLetter_of_forall (h : ∀ c ∈ s, isCaseIgnorable c = true) :
    meetsCasedLetter s = false := by
  have hend := meetsCasedLetter_append_of_forall (t := []) h
  rwa [List.append_nil] at hend

theorem exists_of_meetsCasedLetter (h : meetsCasedLetter s = true) :
    ∃ c ∈ s, isCaseIgnorable c = false := by
  by_contra hs
  have hall : ∀ c ∈ s, isCaseIgnorable c = true := by simpa using hs
  rw [meetsCasedLetter_of_forall hall] at h
  cases h

/-- A letter that is met is met whatever follows. -/
theorem meetsCasedLetter_append (h : meetsCasedLetter s = true) :
    meetsCasedLetter (s ++ t) = true := by
  rw [meetsCasedLetter_append_of_exists (exists_of_meetsCasedLetter h), h]

theorem meetsCasedLetter_A : meetsCasedLetter ['A'] = true := by decide +kernel

/-! ### Settled sigmas -/

/-- The form of a sigma between these two texts is decided by them (the first one is read
backwards): a cased letter comes after it; or something that is not passed over comes before it and
is no cased letter, or is one while something that is not passed over comes after the sigma too. -/
def SigmaSettled (before after : List Char) : Prop :=
  meetsCasedLetter after = true ∨
    (∃ c ∈ before, isCaseIgnorable c = false) ∧
      (meetsCasedLetter before = false ∨ ∃ c ∈ after, isCaseIgnorable c = false)

/-- The form of each sigma in the text is decided by the text. -/
def SigmasSettled (text : List Char) : Prop :=
  ∀ before after, text = before ++ 'Σ' :: after → SigmaSettled before.reverse after

/-- A sigma that is not settled becomes final after a letter A, or it is final and is not before
one. -/
theorem exists_change_of_not_settled (h : ¬ SigmaSettled before after) :
    (endsWord before after = false ∧ endsWord (before ++ ['A']) after = true) ∨
      (endsWord before after = true ∧ endsWord before (after ++ ['A']) = false) := by
  obtain ⟨hafter, hfront⟩ := not_or.mp h
  rw [Bool.not_eq_true] at hafter
  by_cases hbefore : ∃ c ∈ before, isCaseIgnorable c = false
  · obtain ⟨hmeets, hback⟩ := not_or.mp fun hcase => hfront ⟨hbefore, hcase⟩
    have hpass : ∀ c ∈ after, isCaseIgnorable c = true := by simpa using hback
    rw [Bool.not_eq_false] at hmeets
    refine .inr ⟨?_, ?_⟩
    · rw [endsWord, hmeets, hafter]
      rfl
    · rw [endsWord, hmeets, meetsCasedLetter_append_of_forall hpass, meetsCasedLetter_A]
      rfl
  · have hpass : ∀ c ∈ before, isCaseIgnorable c = true := by simpa using hbefore
    refine .inl ⟨?_, ?_⟩
    · rw [endsWord, meetsCasedLetter_of_forall hpass]
      rfl
    · rw [endsWord, meetsCasedLetter_append_of_forall hpass, meetsCasedLetter_A, hafter]
      rfl

/-- A sigma is settled exactly if nothing that comes around the two texts changes its form. -/
theorem settled_iff :
    SigmaSettled before after ↔
      ∀ pre post, endsWord (before ++ pre) (after ++ post) = endsWord before after := by
  constructor
  · rintro (hafter | ⟨hbefore, hcase⟩) pre post
    · rw [endsWord, endsWord, hafter, meetsCasedLetter_append hafter]
      simp
    · rw [endsWord, endsWord, meetsCasedLetter_append_of_exists hbefore]
      rcases hcase with hnone | hafter
      · simp [hnone]
      · rw [meetsCasedLetter_append_of_exists hafter]
  · intro h
    by_contra hopen
    have hfront := h ['A'] []
    have hback := h [] ['A']
    rw [List.append_nil] at hfront hback
    rcases exists_change_of_not_settled hopen with ⟨hno, hyes⟩ | ⟨hyes, hno⟩
    · rw [hno, hyes] at hfront
      cases hfront
    · rw [hno, hyes] at hback
      cases hback

/-! ### Texts between texts -/

/-- The lower-case form of a text between two others, the first of them read backwards. -/
def lowercaseBetween (before : List Char) : List Char → List Char → List Char
  | [], _ => []
  | c :: rest, after =>
    lowerAt before c (rest ++ after) ++ lowercaseBetween (c :: before) rest after

theorem lowercaseFrom_append (before text after : List Char) :
    lowercaseFrom before (text ++ after) =
      lowercaseBetween before text after ++ lowercaseFrom (text.reverse ++ before) after := by
  induction text generalizing before with
  | nil => rfl
  | cons c rest ih => simp [lowercaseFrom, lowercaseBetween, ih]

theorem lowercaseBetween_nil (before text : List Char) :
    lowercaseBetween before text [] = lowercaseFrom before text := by
  simpa [lowercaseFrom] using (lowercaseFrom_append before text []).symm

theorem lowercaseBetween_append (before text other after : List Char) :
    lowercaseBetween before (text ++ other) after =
      lowercaseBetween before text (other ++ after) ++
        lowercaseBetween (text.reverse ++ before) other after := by
  induction text generalizing before with
  | nil => rfl
  | cons c rest ih => simp [lowercaseBetween, ih]

/-- Apart from its sigmas, a text has the same lower-case form everywhere. -/
theorem lowercaseBetween_congr {before' after' text : List Char}
    (h : ∀ u v, text = u ++ 'Σ' :: v →
      endsWord (u.reverse ++ before) (v ++ after) = endsWord (u.reverse ++ before') (v ++ after')) :
    lowercaseBetween before text after = lowercaseBetween before' text after' := by
  induction text generalizing before before' with
  | nil => rfl
  | cons c rest ih =>
    have hrest : lowercaseBetween (c :: before) rest after =
        lowercaseBetween (c :: before') rest after' := by
      apply ih
      rintro u v rfl
      simpa using h (c :: u) v rfl
    rw [lowercaseBetween, lowercaseBetween, hrest]
    by_cases hc : c = 'Σ'
    · subst hc
      have hform : endsWord before (rest ++ after) = endsWord before' (rest ++ after') :=
        h [] rest rfl
      rw [lowerAt, lowerAt, if_pos rfl, if_pos rfl, hform]
    · simp only [lowerAt, if_neg hc]

/-- A text whose sigmas are settled has one lower-case form, wherever it stands. -/
theorem lowercaseBetween_of_settled {text : List Char} (h : SigmasSettled text)
    (before after : List Char) :
    lowercaseBetween before text after = lowercaseFrom [] text := by
  rw [← lowercaseBetween_nil]
  apply lowercaseBetween_congr
  intro u v huv
  have hform := settled_iff.mp (h u v huv)
  rw [hform before after, hform [] []]

/-! ### Changed forms -/

section Changes

variable (before before' after after' : List Char)

/-- Where sigmas are final in the one place if they are in the other, there are no more small sigmas
of the first form and no fewer of the final form. -/
theorem counts_lowercaseBetween_le
    (h : ∀ u v, endsWord (u ++ before) (v ++ after) = true →
      endsWord (u ++ before') (v ++ after') = true) (text : List Char) :
    (lowercaseBetween before' text after').count 'σ' ≤
        (lowercaseBetween before text after).count 'σ' ∧
      (lowercaseBetween before text after).count 'ς' ≤
        (lowercaseBetween before' text after').count 'ς' := by
  induction text generalizing before before' with
  | nil => simp [lowercaseBetween]
  | cons c rest ih =>
    obtain ⟨hfirst, hfinal⟩ := ih (c :: before) (c :: before') fun u v => by
      simpa using h (u ++ [c]) v
    simp only [lowercaseBetween, List.count_append]
    by_cases hc : c = 'Σ'
    · subst hc
      have hform := h [] rest
      simp only [List.nil_append] at hform
      simp only [lowerAt, if_pos]
      cases hends : endsWord before (rest ++ after) with
      | true =>
        simp only [hform hends, if_pos]
        omega
      | false =>
        -- In the second place the sigma may be final.
        cases endsWord before' (rest ++ after') with
        | true => simpa using ⟨by omega, by omega⟩
        | false => simpa using ⟨hfirst, hfinal⟩
    · simp only [lowerAt, if_neg hc]
      omega

/-- And there are fewer of the one and more of the other if some sigma is final only there. -/
theorem counts_lowercaseBetween_lt
    (h : ∀ u v, endsWord (u ++ before) (v ++ after) = true →
      endsWord (u ++ before') (v ++ after') = true) {left right : List Char}
    (hno : endsWord (left.reverse ++ before) (right ++ after) = false)
    (hyes : endsWord (left.reverse ++ before') (right ++ after') = true) :
    (lowercaseBetween before' (left ++ 'Σ' :: right) after').count 'σ' <
        (lowercaseBetween before (left ++ 'Σ' :: right) after).count 'σ' ∧
      (lowercaseBetween before (left ++ 'Σ' :: right) after).count 'ς' <
        (lowercaseBetween before' (left ++ 'Σ' :: right) after').count 'ς' := by
  -- What stands left and right of that sigma changes in the same direction, or not at all.
  obtain ⟨hleft, hleft'⟩ := counts_lowercaseBetween_le before before'
    ('Σ' :: (right ++ after)) ('Σ' :: (right ++ after'))
    (fun u v => by simpa using h u (v ++ 'Σ' :: right)) left
  obtain ⟨hright, hright'⟩ := counts_lowercaseBetween_le
    ('Σ' :: (left.reverse ++ before)) ('Σ' :: (left.reverse ++ before')) after after'
    (fun u v => by simpa using h (u ++ 'Σ' :: left.reverse) v) right
  have hcounts : ['ς'].count 'σ' = 0 ∧ ['σ'].count 'σ' = 1 ∧ ['ς'].count 'ς' = 1 ∧
      ['σ'].count 'ς' = 0 := by decide
  simp only [lowercaseBetween_append, lowercaseBetween, List.cons_append]
  simp only [List.count_append, lowerAt, if_pos, hno, hyes, Bool.false_eq_true, if_false, hcounts]
  omega

end Changes

/-! ### Texts that do not occur -/

theorem lowerAt_A (before after : List Char) : lowerAt before 'A' after = ['a'] := by
  have hlower : lowerOf 'A' = 'a' := by decide +kernel
  simp [lowerAt, hlower]

/-- A text with a sigma that is not settled does not occur, in lower case, in the text with a letter
A before or behind it. -/
theorem exists_not_infix_of_not_settled {text : List Char} (h : ¬ SigmasSettled text) :
    ∃ whole : List Char, text <:+: whole ∧
      ¬ lowercaseFrom [] text <:+: lowercaseFrom [] whole := by
  simp only [SigmasSettled, not_forall] at h
  obtain ⟨left, right, htext, hopen⟩ := h
  have hcounts : ∀ {part whole : List Char} (c : Char), whole.count c < part.count c →
      ¬ part <:+: whole := fun c hlt hpart => absurd (hpart.count_le c) (Nat.not_le.mpr hlt)
  rcases exists_change_of_not_settled hopen with ⟨hno, hyes⟩ | ⟨hyes, hno⟩
  · -- One sigma more is final, so there are fewer of the other form.
    refine ⟨'A' :: text, (List.suffix_cons _ _).isInfix, hcounts 'σ' ?_⟩
    obtain ⟨hless, -⟩ := counts_lowercaseBetween_lt [] ['A'] [] []
      (fun u v hends => by
        simp only [List.append_nil, endsWord, Bool.and_eq_true] at hends ⊢
        exact ⟨meetsCasedLetter_append hends.1, hends.2⟩)
      (by simpa using hno) (by simpa using hyes)
    rw [← htext] at hless
    simpa [lowercaseFrom, lowerAt_A, lowercaseBetween_nil] using hless
  · -- One sigma less is final.
    refine ⟨text ++ ['A'], (List.prefix_append _ _).isInfix, hcounts 'ς' ?_⟩
    obtain ⟨-, hless⟩ := counts_lowercaseBetween_lt [] [] ['A'] []
      (fun u v hends => by
        simp only [List.append_nil, endsWord, Bool.and_eq_true, Bool.not_eq_true'] at hends ⊢
        refine ⟨hends.1, ?_⟩
        by_contra hmeets
        rw [Bool.not_eq_false] at hmeets
        rw [meetsCasedLetter_append hmeets] at hends
        exact Bool.noConfusion hends.2)
      (by simpa using hno) (by simpa using hyes)
    rw [← htext] at hless
    simpa [lowercaseFrom_append, lowercaseFrom, lowerAt_A, lowercaseBetween_nil] using hless

end DatalogClient.Text
