import DatalogClient.Failure.Report
import DatalogClient.Proofs.Document.Quoted

/-!
# Issues in lines

A document that does not pass is reported by a message that has the number of issues in its first
line. Issues follow, and there is one in each line unless a text that an issue quotes has a line
feed. Such a text goes on in a line of its own.

## Main definitions

* `Issue.told` — an issue as a line
* `Issue.inOrder` — issues in the order of their paths

## Main results

* `Document.lines_message` — the lines of the message
* `Document.issues_in_lines` — when there is one for the number and one for each issue
* `Document.forgedIssue_listed` — a text that is listed like an issue
-/

namespace DatalogClient

open Text (OneLine Ended lines)

/-! ### Paths as texts -/

theorem Json.Location.lineFeed_notMem_chars {location : Json.Location}
    (h : location.EveryName OneLine) : '\n' ∉ location.chars := by
  induction location with
  | nil => simp [chars]
  | cons step rest ih =>
    cases step with
    | member name =>
      obtain ⟨hname, hrest⟩ := (everyName_member name rest).mp h
      rw [OneLine] at hname
      simp [chars, hname, ih hrest]
    | item index =>
      have hindex : '\n' ∉ (toString index).toList := oneLine_toString index
      have hrest := ih ((everyName_item index rest).mp h)
      simpa [chars, hrest] using hindex

namespace Path

variable {path : Path}

theorem oneLine_text (h : path.location.EveryName OneLine)
    (hhead : ∃ name rest, path.location = .member name :: rest ∧ name ≠ "") :
    OneLine path.text := by
  obtain ⟨name, rest, hlocation, -⟩ := hhead
  have hchars := Json.Location.lineFeed_notMem_chars h
  rw [← toList_text hlocation, List.mem_cons, not_or] at hchars
  exact hchars.2

theorem text_ne_empty (hhead : ∃ name rest, path.location = .member name :: rest ∧ name ≠ "") :
    path.text ≠ "" := by
  obtain ⟨name, rest, hlocation, hname⟩ := hhead
  have hchars := toList_text hlocation
  intro htext
  simp [htext, hlocation, Json.Location.chars, hname] at hchars

end Path

/-! ### Issues as lines -/

namespace Issue

/-- The path and the message of an issue, as they are listed. -/
def told (i : Issue) : String := i.path.text ++ ": " ++ i.message

/-- The issues in the order of their paths, and those of one path as they were found. -/
def inOrder (issues : List Issue) : List Issue :=
  issues.mergeSort fun a b => decide (a.path.text ≤ b.path.text)

theorem inOrder_perm (issues : List Issue) : (inOrder issues).Perm issues :=
  List.mergeSort_perm _ _

theorem pairs_eq (issues : List Issue) :
    pairs issues = (inOrder issues).map fun i => (i.path.text, i.message) := by
  rw [pairs, inOrder, List.map_mergeSort]
  exact fun _ _ _ _ => rfl

theorem line_eq_told {i : Issue} (h : i.path.text ≠ "") :
    line (i.path.text, i.message) = i.told := by
  rw [line, if_neg h, told]

end Issue

namespace Document

variable {d : Document}

theorem exists_head_of_mem_issues {i : Issue} (hi : i ∈ d.issues) :
    ∃ name rest, i.path.location = .member name :: rest ∧ name ≠ "" := by
  rw [← report_eq_issues, report_eq_found] at hi
  obtain ⟨node, hnode, hraises⟩ :=
    (Part.found_iff_raises (.document d) [] _ _).mp ⟨i, hi, rfl, rfl⟩
  rw [hnode, Path.location_nil, List.nil_append]
  exact exists_member_of_raises hraises

/-- Whatever they quote, issues are not ended by line feeds. -/
theorem ended_of_mem_told (d : Document) :
    ∀ text ∈ (Issue.inOrder d.issues).map Issue.told, Ended text := by
  -- Nothing is asked of the texts that are quoted: a message does not end by them.
  have htrue := Json.everyText_of_forall (fun _ => trivial) d.wire
  rw [List.forall_mem_map]
  intro i hi
  have hmem : i ∈ d.issues := (Issue.inOrder_perm _).mem_iff.mp hi
  obtain ⟨hquotes, -⟩ := quotes_of_mem_issues (fun _ _ => trivial) htrue hmem
  exact hquotes.ended.append_left _

/-- An issue of a document without line feeds is one line. -/
theorem oneLine_told (hd : d.wire.EveryText OneLine) {i : Issue} (hi : i ∈ d.issues) :
    OneLine i.told := by
  obtain ⟨hquotes, hnames⟩ := quotes_of_mem_issues (fun _ => id) hd hi
  have hpath := Path.oneLine_text hnames (exists_head_of_mem_issues hi)
  rw [Issue.told, Text.oneLine_append, Text.oneLine_append]
  exact ⟨⟨hpath, by decide⟩, hquotes.oneLine⟩

theorem display_issues (d : Document) :
    Issue.display d.issues = "\n".intercalate ((Issue.inOrder d.issues).map Issue.told) := by
  rw [Issue.display, Issue.pairs_eq, List.map_map]
  congr 1
  refine List.map_congr_left fun i hi => ?_
  have hmem : i ∈ d.issues := (Issue.inOrder_perm _).mem_iff.mp hi
  exact Issue.line_eq_told (Path.text_ne_empty (exists_head_of_mem_issues hmem))

/-- The first line is the number of issues, and the further lines are those of the issues. -/
theorem lines_message (hne : d.issues ≠ []) :
    lines (Report.ofFailure (.ofValidate (.invalid ⟨d.issues⟩))).message =
      ("validation failed: " ++ toString d.issues.length ++ " issue(s)") ::
        ((Issue.inOrder d.issues).map Issue.told).flatMap lines := by
  have hcount : OneLine ("validation failed: " ++ toString d.issues.length ++ " issue(s)") := by
    rw [Text.oneLine_append, Text.oneLine_append]
    exact ⟨⟨by decide, oneLine_toString _⟩, by decide⟩
  have hcountNe : "validation failed: " ++ toString d.issues.length ++ " issue(s)" ≠ "" := by simp
  have hended := ended_of_mem_told d
  have hlisted : (Issue.inOrder d.issues).map Issue.told ≠ [] := by
    rw [Ne, List.map_eq_nil_iff]
    exact fun h => hne (List.nil_perm.mp (h ▸ Issue.inOrder_perm d.issues))
  have hmessage : (Report.ofFailure (.ofValidate (.invalid ⟨d.issues⟩))).message =
      "validation failed: " ++ toString d.issues.length ++ " issue(s)" ++ "\n" ++
        Issue.display d.issues := rfl
  rw [hmessage, Text.lines_append (hcount.ended hcountNe), Text.lines_eq_singleton hcount hcountNe,
    display_issues, Text.lines_intercalate hended hlisted]
  rfl

/-- The message for a document that does not pass begins by the number of issues, and the lines of
the issues follow, of each issue once. There is a line for each issue exactly if no issue has a line
feed in its path or its message, and then the line is the issue. No issue has one if no text of the
document has. -/
theorem issues_in_lines (d : Document) {e : Invalid} (h : d.validate = .error e) :
    let shown := lines (Report.ofFailure (.ofValidate (.invalid e))).message
    let count := "validation failed: " ++ toString e.issues.length ++ " issue(s)"
    ∃ listed : List Issue, listed.Perm e.issues ∧
      shown = count :: (listed.flatMap fun i => lines i.told) ∧
      (shown.length = e.issues.length + 1 ↔ ∀ i ∈ e.issues, OneLine i.told) ∧
      ((∀ i ∈ e.issues, OneLine i.told) → shown = count :: listed.map Issue.told) ∧
      (d.wire.EveryText OneLine → ∀ i ∈ e.issues, OneLine i.told) := by
  -- A document fails for its issues, so it has some.
  obtain ⟨hne, rfl⟩ : d.issues ≠ [] ∧ e = ⟨d.issues⟩ := by
    rw [validate] at h
    split at h
    next hempty => cases h
    next hempty => exact ⟨by simpa using hempty, (Except.error.inj h).symm⟩
  intro shown count
  have hperm : (Issue.inOrder d.issues).Perm d.issues := Issue.inOrder_perm d.issues
  have hshown : shown = count :: ((Issue.inOrder d.issues).map Issue.told).flatMap lines :=
    lines_message hne
  have honeLine : (∀ text ∈ (Issue.inOrder d.issues).map Issue.told, OneLine text) ↔
      ∀ i ∈ d.issues, OneLine i.told := by
    simp only [List.forall_mem_map, hperm.mem_iff]
  have hended := ended_of_mem_told d
  refine ⟨Issue.inOrder d.issues, hperm, ?_, ?_, fun h => ?_, fun hd i hi => oneLine_told hd hi⟩
  · rw [hshown, List.flatMap_map]
  · rw [hshown, List.length_cons, Nat.add_right_cancel_iff, ← honeLine,
      ← Text.length_flatMap_lines_eq_iff hended, List.length_map, hperm.length_eq]
  · rw [hshown, Text.flatMap_lines_eq_self hended (honeLine.mpr h)]

/-- A variable and a mark that stand where they may not. -/
def strayTerms : Document where
  find := [.var "e", .var "?x", .single]

theorem strayTerms_in_lines :
    strayTerms.validate = .error ⟨strayTerms.issues⟩ ∧ strayTerms.issues.length = 2 ∧
      (lines (Report.ofFailure (.ofValidate (.invalid ⟨strayTerms.issues⟩))).message).length =
        3 := by
  have hinvalid : strayTerms.validate = .error ⟨strayTerms.issues⟩ := rfl
  obtain ⟨listed, hperm, hlines, hlength, honeLine, htexts⟩ := issues_in_lines strayTerms hinvalid
  have hwire : strayTerms.wire.EveryText OneLine := by
    simp +decide [strayTerms, wire, memberIf, FindTerm.toJson]
  exact ⟨hinvalid, rfl, hlength.mpr (htexts hwire)⟩

/-- A document without clauses that has a variable with a line feed. -/
def forgedIssue : Document where
  find := [.var "e`\nwhere[0]: unknown attribute `:f"]

/-- What stands behind the line feed is listed like an issue of a clause. -/
theorem forgedIssue_listed :
    forgedIssue.clauses = none ∧ forgedIssue.validate = .error ⟨forgedIssue.issues⟩ ∧
      forgedIssue.issues.length = 1 ∧
      lines (Report.ofFailure (.ofValidate (.invalid ⟨forgedIssue.issues⟩))).message =
        ["validation failed: 1 issue(s)",
          "find[0]: expected a logic variable or aggregate, got `e`",
          "where[0]: unknown attribute `:f`"] := by
  refine ⟨rfl, rfl, rfl, ?_⟩
  decide +kernel

end Document

end DatalogClient
