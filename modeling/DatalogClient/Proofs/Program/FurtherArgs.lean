import DatalogClient.Proofs.Builder.Workshop
import DatalogClient.Proofs.Program.Posting

/-!
# Further arguments

Arguments can be added to a document in two places: a builder adds those that it is run with, and
the command that runs a document adds those of the command line. Both put them after the arguments
of the document. They differ where there are none to add: the builder then leaves the document as
it is, and the command gives it an empty list if it has no arguments of its own, which shows in
the wire text.

## Main results

* `Document.text_withArgs_ne` — a list of arguments shows in the text, even if it is empty
* `Builder.text_addArgs_eq_iff` — when the two places agree on a document
* `program_runWith_agree_iff` — when a command line posts what a builder would submit
-/

namespace DatalogClient

/-! ### Texts with one member more -/

namespace Json

theorem length_compactMembersAfter_lt_concat (members : List (String × Json))
    (m : String × Json) :
    (compactMembersAfter members).length < (compactMembersAfter (members ++ [m])).length := by
  induction members with
  | nil =>
    simp only [List.nil_append, compactMembersAfter, List.length_append, List.length_cons,
      List.length_nil]
    omega
  | cons first rest ih =>
    simp only [List.cons_append, compactMembersAfter, List.length_cons, List.length_append]
    omega

/-- An object is written with every member that it has. -/
theorem compact_obj_concat_ne (first : String × Json) (members : List (String × Json))
    (m : String × Json) :
    (obj (first :: (members ++ [m]))).compact ≠ (obj (first :: members)).compact := by
  intro h
  -- The texts before the last member are alike, so it is enough to compare lengths.
  have hlonger := length_compactMembersAfter_lt_concat members m
  have hchars := congrArg List.length (String.ofList_injective h)
  simp only [compactChars, compactMembers, List.length_cons, List.length_append] at hchars
  omega

end Json

/-- A list of arguments shows in the text, even if it is empty. -/
theorem Document.text_withArgs_ne {d : Document} (h : d.args = none) (args : List Value) :
    (d.withArgs args).text ≠ d.text := by
  have hwire : d.wire = .obj (("find", .arr (d.find.map FindTerm.toJson)) ::
      (memberIf "keys" .str d.keys ++ memberIf "in" Binding.toJson d.inputs ++
        memberIf "where" Clause.toJson d.clauses)) := by
    simp only [wire, h, memberIf, List.append_nil]
  unfold text
  rw [hwire]
  exact Json.compact_obj_concat_ne _ _ _

/-- Arguments that are put after those of a document in any case come to what a builder does with
them, unless there are none on either side. -/
theorem Builder.text_addArgs_eq_iff {kind : QueryKind} (b : Builder kind) (args : List Value) :
    (b.document.withArgs (b.document.args.getD [] ++ args)).text =
        (b.addArgs args).document.text ↔
      (args = [] → b.document.args ≠ none) := by
  rw [document_addArgs]
  by_cases hargs : args = []
  · -- The builder adds nothing, and the other way writes the list of before, or an empty one.
    rw [if_pos hargs, hargs, List.append_nil]
    cases hown : b.document.args with
    | none => simpa using Document.text_withArgs_ne hown []
    | some own =>
      have hsame : b.document.withArgs own = b.document := by rw [Document.withArgs, ← hown]
      simp [hsame]
  · rw [if_neg hargs]
    exact iff_of_true rfl fun hnone => (hargs hnone).elim

/-! ### What is posted with them -/

namespace Invocation

variable {i : Invocation} {scene : Scene}

/-- To run a document is to prepare and to post it. -/
theorem handsOver_run {file : String} {args : Option String} {skip : Bool}
    (hi : i.command = .run file args skip) (scene : Scene) :
    i.HandsOver scene (i.dialogue.course scene) := by
  refine handsOver_of_preparing Settings.submitQueryEndpoint
    (Command.comesTo_prepared file args skip scene) (fun url document => ?_) ?_
  · simp only [Posts, hi]
  · simp only [errand, hi, Command.errand, Command.runRun_eq, Client.submit]

/-- A request that is handed over has the text of a document that is to be posted. -/
theorem HandsOver.exists_posts {course : Course Status} (h : i.HandsOver scene course)
    {request : Http.Request} {outcome : Http.Outcome} (hmem : (request, outcome) ∈ course.handed) :
    ∃ url document, i.Posts scene url document ∧ request.url = url ∧
      request.body = document.text := by
  by_cases hposts : ∃ url document, i.Posts scene url document
  · obtain ⟨url, document, hd⟩ := hposts
    obtain ⟨only, hhanded, -, hurl, hbody⟩ := h.posts url document hd
    obtain ⟨rfl, -⟩ := Prod.mk.inj (List.mem_singleton.mp (hhanded ▸ hmem))
    exact ⟨url, document, hd, hurl, hbody⟩
  · have hnone := h.idle fun url document hd => hposts ⟨url, document, hd⟩
    exact absurd (hnone ▸ hmem) List.not_mem_nil

end Invocation

/-- A command line that runs a document with further arguments posts the document with all its
arguments in one list. This is the text of what a builder that holds the document submits when it
is run with the same arguments, unless neither the command line nor the document has any. -/
theorem program_runWith_agree_iff {around : Surroundings} {arguments : List String}
    {i : Invocation} {file text : String} {skip : Bool} {scene : Scene} {source : String}
    {document : Document} {args : List Value} {request : Http.Request} {outcome : Http.Outcome}
    (h : Invocation.ofArguments around arguments = .ok i)
    (hi : i.command = .run file (some text) skip)
    (hsource : (scene.source (Command.sourceName file)).text = .ok source)
    (hdocument : Document.ofText source = .ok document)
    (hargs : Command.argsOf text = .ok args)
    (hhanded : (request, outcome) ∈ ((program around arguments).course scene).handed)
    (kind : QueryKind) (submit : Submitter) :
    ∃ submitted, ((AnyBuilder.mk kind ⟨document⟩).perform (.runWith args submit)).2 =
        .answered [submitted] (submit submitted) ∧
      request.body = (document.withArgs (document.args.getD [] ++ args)).text ∧
      (request.body = submitted.text ↔ (args = [] → document.args ≠ none)) := by
  have hcourse : (program around arguments).course scene = i.dialogue.course scene := by
    simp only [program, h]
  obtain ⟨url, posted, ⟨s, -, -, haccepts⟩, -, hbody⟩ :=
    (i.handsOver_run hi scene).exists_posts (hcourse ▸ hhanded)
  rw [hi] at haccepts
  -- The file and the text of the arguments can be read in one way only.
  obtain ⟨-, source', decoded, hsource', hdecoded, ⟨values, hvalues, rfl⟩, -⟩ := haccepts
  obtain rfl := Except.ok.inj (hsource.symm.trans hsource')
  obtain rfl := Except.ok.inj (hdocument.symm.trans hdecoded)
  obtain rfl := Except.ok.inj (hargs.symm.trans hvalues)
  refine ⟨_, AnyBuilder.yield_runWith _ _ _, hbody, ?_⟩
  rw [hbody]
  exact Builder.text_addArgs_eq_iff (⟨document⟩ : Builder kind) args

/-- The compact text of a list lists what is read from the items. -/
theorem Command.argsOf_compact (items : List Json) {args : List Value}
    (hitems : (Json.arr items).Whole) (hlimit : (Json.arr items).nesting ≤ Json.nestingLimit)
    (h : Json.each Value.decode (.ofJson (.arr items)) = .ok args) :
    argsOf (Json.arr items).compact = .ok args :=
  Json.decodeText_compact (Json.indifferent_each Value.indifferent_decode) hitems hlimit h

/-- The question of the unwilling server, with the arguments of a text. -/
theorem question_posted {text : String} {args : List Value} (h : Command.argsOf text = .ok args) :
    let i : Invocation := { command := .run "q.json" (some text) false }
    ∃ request, (request, .answered 200 "\x7b\"error\":\"no\"\x7d") ∈
        (i.dialogue.course unwillingServer).handed ∧
      request.body = ({ find := [.var "?e"], args := some args } : Document).text := by
  intro i
  have hposts : i.Posts unwillingServer "http://localhost:8080/api/datomic/query"
      { find := [.var "?e"], args := some args } :=
    ⟨.default, ⟨⟨.default, rfl, rfl⟩, rfl⟩, nofun, rfl,
      "\x7b\"find\":[\"?e\"]\x7d", { find := [.var "?e"] }, Source.text_toUTF8 _,
      Document.ofText_question, ⟨args, h, rfl⟩, .inr rfl⟩
  obtain ⟨request, hhanded, -, -, hbody⟩ := (i.handsOver_run rfl unwillingServer).posts _ _ hposts
  exact ⟨request, hhanded ▸ List.mem_singleton_self _, hbody⟩

/-- The question is posted with the argument of the command line, as a builder would submit it. -/
theorem furtherArgument_posted :
    Invocation.ofArguments {} ["run", "q.json", "--args", "[1]"] =
        .ok { command := .run "q.json" (some "[1]") false } ∧
      ∃ request outcome submitted,
        (request, outcome) ∈ ((program {} ["run", "q.json", "--args", "[1]"]).course
          unwillingServer).handed ∧
        ((AnyBuilder.mk .find ⟨{ find := [.var "?e"] }⟩).perform
            (.runWith [.int 1] fun _ => .ok .null)).2 = .answered [submitted] (.ok .null) ∧
        request.body = submitted.text := by
  have hargs : Command.argsOf "[1]" = .ok [.int 1] :=
    Command.argsOf_compact [.num (.int 1)] (by simp [Json.IsWhole]) (by decide) rfl
  obtain ⟨request, hhanded, -⟩ := question_posted hargs
  obtain ⟨submitted, hsubmitted, -, hsame⟩ := program_runWith_agree_iff
    (show Invocation.ofArguments {} ["run", "q.json", "--args", "[1]"] = .ok _ from rfl) rfl
    (Source.text_toUTF8 _) Document.ofText_question hargs hhanded .find fun _ => .ok .null
  exact ⟨rfl, request, _, submitted, hhanded, hsubmitted,
    hsame.mpr fun hnone => absurd hnone (List.cons_ne_nil _ _)⟩

/-- With an empty list of further arguments a question without arguments is posted with an empty
list, which a builder would not submit. -/
theorem noFurtherArgument_posted :
    Invocation.ofArguments {} ["run", "q.json", "--args", "[]"] =
        .ok { command := .run "q.json" (some "[]") false } ∧
      ∃ request outcome,
        (request, outcome) ∈ ((program {} ["run", "q.json", "--args", "[]"]).course
          unwillingServer).handed ∧
        request.body = "\x7b\"find\":[\"?e\"],\"args\":[]\x7d" ∧
        ∀ submit, ∃ submitted, ((AnyBuilder.mk .find ⟨{ find := [.var "?e"] }⟩).perform
            (.runWith [] submit)).2 = .answered [submitted] (submit submitted) ∧
          submitted.text = "\x7b\"find\":[\"?e\"]\x7d" ∧ request.body ≠ submitted.text := by
  have hargs : Command.argsOf "[]" = .ok [] :=
    Command.argsOf_compact [] (by simp) (by decide) rfl
  obtain ⟨request, hhanded, hbody⟩ := question_posted hargs
  have hposted : ({ find := [.var "?e"], args := some [] } : Document).text =
      "\x7b\"find\":[\"?e\"],\"args\":[]\x7d" := rfl
  have hheld : ({ find := [.var "?e"] } : Document).text = "\x7b\"find\":[\"?e\"]\x7d" := rfl
  rw [hposted] at hbody
  refine ⟨rfl, request, _, hhanded, hbody, fun submit =>
    ⟨_, AnyBuilder.yield_runWith _ _ _, hheld, fun hsame => ?_⟩⟩
  exact absurd (hbody.symm.trans (hsame.trans hheld)) (by decide)

end DatalogClient
