import DatalogClient.Proofs.Document.RoundTrip

/-!
# The grammar of the wire

A grammar of JSON values says how parts of documents are spelled. It is told without reference to
the types that are read: it may be read as the manual of what a client writes. For each part, what
the grammar admits is what canonical parts are written as.

A list of two that a head for kinds begins and a string ends is no literal. Which heads there are
is left open, for only names are meant to be heads, but numbers are heads as well.

## Main definitions

* `Grammar.IsLiteral`, `Grammar.IsSpec`, `Grammar.IsTerm`, `Grammar.IsBinding`,
  `Grammar.IsClause` — the spellings of the parts
* `Grammar.NamesKind`, `Grammar.MarksKind` — heads for kinds

## Main results

* `Grammar.isLiteral_iff`, `Grammar.isSpec_iff`, `Grammar.isTerm_iff`, `Grammar.isBinding_iff`,
  `Grammar.isClause_iff` — the grammar admits what canonical parts are written as
-/

namespace DatalogClient

namespace Grammar

/-! ### Spellings -/

/-- The name of a kind. -/
def NamesKind (j : Json) : Prop := ∃ kind : Kind, j = .str kind.name

/-- The name or the number of a kind. -/
def MarksKind (j : Json) : Prop := NamesKind j ∨ ∃ n : Int, j = .num (.int n) ∧ 0 ≤ n ∧ n < 8

/-- The spellings of literals. -/
inductive IsLiteral (heads : Json → Prop) : Json → Prop
  | bool (b : Bool) : IsLiteral heads (.bool b)
  | int (n : Int) (hlow : Int64.minValue.toInt ≤ n) (hhigh : n ≤ Int64.maxValue.toInt) :
      IsLiteral heads (.num (.int n))
  | float (x : Float) (hfinite : x.isFinite = true) : IsLiteral heads (.num (.float x))
  | text (s : String) : IsLiteral heads (.str s)
  | typed (kind : Kind) (text : String) :
      IsLiteral heads (.obj [("type", .str kind.name), ("value", .str text)])
  | list (items : List Json) (hitems : ∀ item ∈ items, IsLiteral heads item)
      (hpair : ∀ head text, items = [head, .str text] → ¬ heads head) :
      IsLiteral heads (.arr items)

/-- The spellings of attributes with options. -/
inductive IsOption (heads : Json → Prop) : Json → Prop
  | renamed (attr name : String) : IsOption heads (.arr [.str attr, .str "as", .str name])
  | limit (attr : String) (n : Int) (hlow : 0 ≤ n) (hhigh : n ≤ Int64.maxValue.toInt) :
      IsOption heads (.arr [.str attr, .str "limit", .num (.int n)])
  | fallback (attr : String) (value : Json) (hvalue : IsLiteral heads value) :
      IsOption heads (.arr [.str attr, .str "default", value])

/-- The spellings of keys. -/
inductive IsKey (heads : Json → Prop) : Json → Prop
  | attr (name : String) : IsKey heads (.str name)
  | option (j : Json) (hoption : IsOption heads j) : IsKey heads j

/-- The spellings of recursion limits. -/
inductive IsLimit : Json → Prop
  | depth (n : Int) (hlow : 0 ≤ n) (hhigh : n < 2 ^ 64) : IsLimit (.num (.int n))
  | unbounded : IsLimit (.str "...")

mutual

/-- The spellings of specs. -/
inductive IsSpec (heads : Json → Prop) : Json → Prop
  | name (attr : String) : IsSpec heads (.str attr)
  | option (j : Json) (hoption : IsOption heads j) : IsSpec heads j
  | keyed (key : Json) (selector : List Json) (hkey : IsKey heads key)
      (hselector : ∀ item ∈ selector, IsSpec heads item) :
      IsSpec heads (.obj [("key", key), ("selector", .arr selector)])
  | attrs (members : List (String × Json)) (hnames : (members.map (·.1)).Nodup)
      (hkeyed : ¬ (members.map (·.1)).Perm ["key", "selector"])
      (htargets : ∀ member ∈ members, IsTarget heads member.2) :
      IsSpec heads (.obj members)

/-- The spellings of targets. -/
inductive IsTarget (heads : Json → Prop) : Json → Prop
  | pattern (items : List Json) (hitems : ∀ item ∈ items, IsSpec heads item) :
      IsTarget heads (.arr items)
  | recursion (j : Json) (hlimit : IsLimit j) : IsTarget heads j

end

/-- The spellings of terms. -/
inductive IsTerm (heads : Json → Prop) : Json → Prop
  | text (s : String) : IsTerm heads (.str s)
  | pull (pattern : List Json) (entity : String) (hpattern : ∀ item ∈ pattern, IsSpec heads item) :
      IsTerm heads (.obj [("pull", .arr pattern), ("entity", .str entity)])

/-- The spellings of bindings. -/
inductive IsBinding : Json → Prop
  | text (var : String) : IsBinding (.str var)
  | flat (vars : List String) : IsBinding (.arr (vars.map .str))
  | nested (vars : List String) : IsBinding (.arr [.arr (vars.map .str)])

/-- The spellings of clauses. -/
inductive IsClause (heads : Json → Prop) : Json → Prop
  | rule (name : String) (args : List Json) (hargs : ∀ arg ∈ args, IsLiteral heads arg) :
      IsClause heads (.obj [("type", .str "rule"), ("value", .arr (.str name :: args))])
  | list (items : List Json) (hitems : ∀ item ∈ items, IsLiteral heads item)
      (hrule : ∀ name args, items ≠ [.str "rule", .arr (.str name :: args)]) :
      IsClause heads (.arr items)

/-! ### Literals -/

/-- Items that are all written are written together. -/
theorem exists_map_eq {α β : Type} {p : α → Prop} {write : α → β} {items : List β}
    (h : ∀ item ∈ items, ∃ a, p a ∧ write a = item) :
    ∃ values : List α, (∀ a ∈ values, p a) ∧ values.map write = items := by
  induction items with
  | nil => exact ⟨[], by simp, rfl⟩
  | cons item rest ih =>
    simp only [List.mem_cons, forall_eq_or_imp] at h
    obtain ⟨a, ha, rfl⟩ := h.1
    obtain ⟨values, hvalues, rfl⟩ := ih h.2
    refine ⟨a :: values, ?_, rfl⟩
    simp only [List.mem_cons, forall_eq_or_imp]
    exact ⟨ha, hvalues⟩

/-- The values that mark typed texts are the names and the numbers of kinds. -/
theorem isSome_kindAtHead?_iff {j : Json} :
    (TypedText.kindAtHead? j).isSome = true ↔ MarksKind j := by
  cases j with
  | str s =>
    rw [TypedText.kindAtHead?, Option.isSome_iff_exists, MarksKind, NamesKind]
    constructor
    · intro h
      obtain ⟨kind, hkind⟩ := h
      exact .inl ⟨kind, by rw [Kind.name_of_ofName? hkind]⟩
    · intro h
      rcases h with ⟨kind, hkind⟩ | ⟨n, hn, -⟩
      · obtain rfl := Json.str.inj hkind
        exact ⟨kind, Kind.ofName?_name kind⟩
      · simp at hn
  | num n =>
    cases n with
    | int n =>
      rw [Value.isSome_kindAtHead?_int]
      simp [MarksKind, NamesKind]
    | float x => simp [TypedText.kindAtHead?, MarksKind, NamesKind]
  | null => simp [TypedText.kindAtHead?, MarksKind, NamesKind]
  | bool b => simp [TypedText.kindAtHead?, MarksKind, NamesKind]
  | arr items => simp [TypedText.kindAtHead?, MarksKind, NamesKind]
  | obj members => simp [TypedText.kindAtHead?, MarksKind, NamesKind]

/-- A list is read as a typed text exactly if it is a head for a kind and a string. -/
theorem ofItems?_eq_none_iff {items : List Json} :
    TypedText.ofItems? items = none ↔
      ∀ head text, items = [head, .str text] → ¬ MarksKind head := by
  have hhead : ∀ head, ¬ MarksKind head ↔ TypedText.kindAtHead? head = none := by
    intro head
    rw [← isSome_kindAtHead?_iff, Option.not_isSome_iff_eq_none]
  simp only [hhead]
  constructor
  · intro hnone head text hitems
    subst hitems
    simpa [TypedText.ofItems?] using hnone
  · intro h
    rw [TypedText.ofItems?.eq_def]
    split
    · rw [h _ _ rfl, Option.map_none]
    · rfl

/-- The grammar admits what canonical literals are written as. -/
theorem isLiteral_iff {j : Json} :
    IsLiteral MarksKind j ↔ ∃ v : Value, v.Canonical Value.marksKind ∧ v.toJson = j := by
  constructor
  · intro h
    induction h with
    | bool b => exact ⟨.bool b, trivial, rfl⟩
    | int n hlow hhigh =>
      have hword := Value.toInt_ofInt_of_fits ⟨hlow, hhigh⟩
      exact ⟨.int (Int64.ofInt n), trivial, by rw [Value.toJson, Json.int, hword]⟩
    | float x hfinite => exact ⟨.float x, hfinite, by rw [Value.toJson, if_pos hfinite]⟩
    | text s => exact ⟨.text s, trivial, rfl⟩
    | typed kind text => exact ⟨.typed ⟨kind, text⟩, trivial, rfl⟩
    | list items hitems hpair ih =>
      obtain ⟨values, hvalues, rfl⟩ := exists_map_eq ih
      have hnone := ofItems?_eq_none_iff.mpr hpair
      refine ⟨.list values, ?_, by rw [Value.toJson, Value.listToJson_eq_map]⟩
      rw [Value.canonical_list, ← Value.isSome_ofItems?_toJson, hnone]
      exact ⟨rfl, hvalues⟩
  · intro h
    obtain ⟨v, hv, rfl⟩ := h
    induction v using Value.nestedInduction with
    | bool b => exact .bool b
    | int n => exact .int n.toInt n.minValue_le_toInt n.toInt_le
    | float x =>
      have hfinite : x.isFinite = true := hv
      rw [Value.toJson, if_pos hfinite]
      exact .float x hfinite
    | text s => exact .text s
    | typed t => exact .typed t.kind t.text
    | list items ih =>
      rw [Value.canonical_list, ← Value.isSome_ofItems?_toJson] at hv
      obtain ⟨hpair, hvalues⟩ := hv
      have hnone : TypedText.ofItems? (items.map Value.toJson) = none := by simpa using hpair
      have hitems : ∀ j ∈ items.map Value.toJson, IsLiteral MarksKind j := by
        intro j hj
        obtain ⟨item, hitem, rfl⟩ := List.mem_map.mp hj
        exact ih item hitem (hvalues item hitem)
      rw [Value.toJson, Value.listToJson_eq_map]
      exact .list _ hitems (ofItems?_eq_none_iff.mp hnone)

/-! ### Specs -/

/-- The grammar admits what canonical options are written as. -/
theorem isOption_iff {j : Json} :
    IsOption MarksKind j ↔ ∃ o : AttrOption, o.kind.Canonical Value.marksKind ∧ o.toJson = j := by
  constructor
  · intro h
    cases h with
    | renamed attr name => exact ⟨⟨attr, .renamed name⟩, trivial, rfl⟩
    | limit attr n hlow hhigh =>
      -- A limit is an unsigned word, but it is spelled as a signed one.
      have hword : n < 2 ^ 64 := by
        rw [Int64.toInt_maxValue] at hhigh
        omega
      obtain ⟨count, rfl⟩ := exists_toNat_eq hlow hword
      exact ⟨⟨attr, .limit count⟩, hhigh, rfl⟩
    | fallback attr value hvalue =>
      obtain ⟨v, hv, rfl⟩ := isLiteral_iff.mp hvalue
      exact ⟨⟨attr, .fallback v⟩, hv, rfl⟩
  · intro h
    obtain ⟨⟨attr, kind⟩, hkind, rfl⟩ := h
    cases kind with
    | renamed name => exact .renamed attr name
    | limit count => exact .limit attr count.toNat (Int.natCast_nonneg _) hkind
    | fallback v => exact .fallback attr v.toJson (isLiteral_iff.mpr ⟨v, hkind, rfl⟩)

theorem isKey_iff {j : Json} :
    IsKey MarksKind j ↔ ∃ key : MapKey, key.Canonical Value.marksKind ∧ key.toJson = j := by
  constructor
  · intro h
    cases h with
    | attr name => exact ⟨.attr name, trivial, rfl⟩
    | option j hoption =>
      obtain ⟨o, ho, rfl⟩ := isOption_iff.mp hoption
      exact ⟨.option o, ho, rfl⟩
  · intro h
    obtain ⟨key, hkey, rfl⟩ := h
    cases key with
    | attr name => exact .attr name
    | option o => exact .option _ (isOption_iff.mpr ⟨o, hkey, rfl⟩)

theorem isLimit_iff {j : Json} : IsLimit j ↔ ∃ limit : RecursionLimit, limit.toJson = j := by
  constructor
  · intro h
    cases h with
    | depth n hlow hhigh =>
      obtain ⟨count, rfl⟩ := exists_toNat_eq hlow hhigh
      exact ⟨.depth count, rfl⟩
    | unbounded => exact ⟨.unbounded, rfl⟩
  · intro h
    obtain ⟨limit, rfl⟩ := h
    cases limit with
    | depth count =>
      have hcount := count.toNat_lt
      exact .depth count.toNat (Int.natCast_nonneg _) (by omega)
    | unbounded => exact .unbounded

-- Specs and targets are spelled by mutual recursion, and what they spell is found by the same.
mutual

/-- What the grammar admits as a spec is what a canonical spec is written as. -/
theorem exists_spec {j : Json} :
    IsSpec MarksKind j → ∃ s : AttrSpec, s.Canonical Value.marksKind ∧ s.toJson.collapse = j
  | .name attr => by
    -- The asterisk is spelled as a name is, but stands for the wildcard.
    by_cases hattr : attr = "*"
    · exact ⟨.wildcard, trivial, by rw [hattr]; rfl⟩
    · exact ⟨.name attr, hattr, rfl⟩
  | .option j hoption => by
    obtain ⟨o, ho, rfl⟩ := isOption_iff.mp hoption
    exact ⟨.option o, ho, Json.collapse_eq_self o.distinct_toJson⟩
  | .keyed key selector hkey hselector => by
    obtain ⟨key, hcanonical, rfl⟩ := isKey_iff.mp hkey
    obtain ⟨specs, hspecs, rfl⟩ := exists_map_eq fun item hitem =>
      exists_spec (hselector item hitem)
    refine ⟨.map (.keyed key specs), ?_, ?_⟩
    · rw [AttrSpec.Canonical, AttrSpec.every_keyed]
      exact ⟨hcanonical, hspecs⟩
    · rw [AttrSpec.collapse_keyed]
      simp [MapTarget.toJson, Json.collapse, Function.comp_def]
  | .attrs members hnames hkeyed htargets => by
    have hentry : ∀ member ∈ members, ∃ entry : String × MapTarget,
        (∀ spec ∈ entry.2.specs, spec.Canonical Value.marksKind) ∧
          (entry.1, entry.2.toJson.collapse) = member := by
      intro member hmember
      obtain ⟨target, htarget, hwrite⟩ := exists_target (htargets member hmember)
      exact ⟨(member.1, target), htarget, by rw [hwrite]⟩
    obtain ⟨entries, hentries, rfl⟩ := exists_map_eq hentry
    rw [List.map_map] at hnames hkeyed
    refine ⟨.map (.attrs entries), ?_, AttrSpec.collapse_attrs_of_nodup hnames⟩
    rw [AttrSpec.Canonical, AttrSpec.every_attrs]
    exact ⟨⟨hnames, hkeyed⟩, hentries⟩

/-- What the grammar admits as a target is what a target of canonical specs is written as. -/
theorem exists_target {j : Json} :
    IsTarget MarksKind j → ∃ target : MapTarget,
      (∀ spec ∈ target.specs, spec.Canonical Value.marksKind) ∧ target.toJson.collapse = j
  | .pattern items hitems => by
    obtain ⟨specs, hspecs, rfl⟩ := exists_map_eq fun item hitem => exists_spec (hitems item hitem)
    refine ⟨.pattern specs, hspecs, ?_⟩
    simp [MapTarget.toJson, Json.collapse, Function.comp_def]
  | .recursion j hlimit => by
    obtain ⟨limit, rfl⟩ := isLimit_iff.mp hlimit
    exact ⟨.recursion limit, by simp [MapTarget.specs],
      Json.collapse_eq_self limit.distinct_toJson⟩

end

/-- The grammar admits what canonical specs are written as. -/
theorem isSpec_iff {j : Json} :
    IsSpec MarksKind j ↔ ∃ s : AttrSpec, s.Canonical Value.marksKind ∧ s.toJson.collapse = j := by
  refine ⟨exists_spec, ?_⟩
  -- Patterns stand under names as well as in selectors, so they are spelled once for both.
  have hpattern : ∀ specs : List AttrSpec, (∀ spec ∈ specs, spec.Canonical Value.marksKind) →
      (∀ spec ∈ specs, spec.Canonical Value.marksKind → IsSpec MarksKind spec.toJson.collapse) →
      ∀ item ∈ specs.map fun spec => spec.toJson.collapse, IsSpec MarksKind item := by
    intro specs hspecs ih item hitem
    obtain ⟨spec, hspec, rfl⟩ := List.mem_map.mp hitem
    exact ih spec hspec (hspecs spec hspec)
  intro h
  obtain ⟨s, hs, rfl⟩ := h
  induction s using AttrSpec.nestedInduction with
  | name attr => exact .name attr
  | wildcard => exact .name "*"
  | option o =>
    rw [AttrSpec.toJson, Json.collapse_eq_self o.distinct_toJson]
    exact .option _ (isOption_iff.mpr ⟨o, hs, rfl⟩)
  | attrs entries ih =>
    obtain ⟨⟨hnames, hkeyed⟩, hentries⟩ := (AttrSpec.every_attrs entries).mp hs
    rw [AttrSpec.collapse_attrs_of_nodup hnames]
    refine .attrs _ (by rwa [List.map_map]) (by rwa [List.map_map]) ?_
    intro member hmember
    obtain ⟨⟨name, target⟩, hentry, rfl⟩ := List.mem_map.mp hmember
    cases target with
    | pattern specs =>
      rw [MapTarget.toJson, AttrSpec.patternToJson_eq_map, Json.collapse,
        Json.collapseItems_eq_map, List.map_map]
      exact .pattern _ (hpattern specs (hentries _ hentry) (ih _ hentry))
    | recursion limit =>
      rw [MapTarget.toJson, Json.collapse_eq_self limit.distinct_toJson]
      exact .recursion _ (isLimit_iff.mpr ⟨limit, rfl⟩)
  | keyed key selector ih =>
    obtain ⟨hkey, hselector⟩ := (AttrSpec.every_keyed key selector).mp hs
    rw [AttrSpec.collapse_keyed, MapTarget.toJson, AttrSpec.patternToJson_eq_map, Json.collapse,
      Json.collapseItems_eq_map, List.map_map]
    exact .keyed _ _ (isKey_iff.mpr ⟨key, hkey, rfl⟩) (hpattern selector hselector ih)

/-! ### Terms, bindings, clauses -/

/-- The grammar admits what canonical terms are written as. -/
theorem isTerm_iff {j : Json} :
    IsTerm MarksKind j ↔
      ∃ t : FindTerm, t.Canonical Value.marksKind ∧ t.toJson.collapse = j := by
  constructor
  · intro h
    cases h with
    | text s =>
      refine ⟨FindTerm.ofText s, FindTerm.canonical_ofText s, ?_⟩
      rw [FindTerm.ofText]
      split_ifs with hsingle hmany
      · rw [hsingle]
        rfl
      · rw [hmany]
        rfl
      · rfl
    | pull pattern entity hpattern =>
      obtain ⟨specs, hspecs, rfl⟩ := exists_map_eq fun item hitem =>
        exists_spec (hpattern item hitem)
      refine ⟨.pull ⟨specs, entity⟩, hspecs, ?_⟩
      rw [FindTerm.toJson, Pull.collapse_toJson]
  · intro h
    obtain ⟨t, ht, rfl⟩ := h
    cases t with
    | var text => exact .text text
    | single => exact .text FindTerm.singleMark
    | many => exact .text FindTerm.manyMark
    | pull p =>
      rw [FindTerm.toJson, Pull.collapse_toJson]
      refine .pull _ _ ?_
      intro item hitem
      obtain ⟨spec, hspec, rfl⟩ := List.mem_map.mp hitem
      exact isSpec_iff.mpr ⟨spec, ht spec hspec, rfl⟩

/-- The grammar admits what canonical bindings are written as. -/
theorem isBinding_iff {j : Json} : IsBinding j ↔ ∃ b : Binding, b.Canonical ∧ b.toJson = j := by
  constructor
  · intro h
    cases h with
    | text var => exact ⟨.scalar var, by simp [Binding.Canonical], rfl⟩
    | flat vars =>
      -- The list is that of a tuple or of a collection, whichever its texts make it.
      refine ⟨Binding.ofTexts vars, Binding.canonical_ofTexts vars, ?_⟩
      rw [← Binding.toJson_literal, Binding.literal_ofTexts, Value.toJson,
        Value.listToJson_eq_map, List.map_map]
      rfl
    | nested vars => exact ⟨.relation vars, by simp [Binding.Canonical], rfl⟩
  · intro h
    obtain ⟨b, -, rfl⟩ := h
    cases b with
    | scalar var => exact .text var
    | tuple vars => exact .flat vars
    | collection var => exact .flat [var, Binding.collectionMark]
    | relation vars => exact .nested vars

/-- What the grammar admits is written by a canonical clause. -/
theorem IsClause.exists_canonical {j : Json} (h : IsClause MarksKind j) :
    ∃ c : Clause, c.Canonical Value.marksKind ∧ c.toJson = j := by
  cases h with
  | rule name args hargs =>
    obtain ⟨values, hvalues, rfl⟩ := exists_map_eq fun arg harg =>
      isLiteral_iff.mp (hargs arg harg)
    refine ⟨.rule ⟨name, values⟩, hvalues, ?_⟩
    rw [Clause.toJson, RuleUsage.toJson_eq, List.map_cons]
    rfl
  | list items hitems hrule =>
    obtain ⟨values, hvalues, rfl⟩ := exists_map_eq fun item hitem =>
      isLiteral_iff.mp (hitems item hitem)
    -- Whatever clause the literals are taken for, it is written as the literals again.
    have hnorule := Clause.ofItems_ne_rule values
    refine ⟨Clause.ofItems values, ?_, ?_⟩
    · rw [Clause.canonical_iff hnorule, Clause.literals_ofItems]
      refine ⟨hvalues, rfl, ?_⟩
      intro call hcall
      subst hcall
      refine hrule call.name (call.args.map Value.toJson) ?_
      simp [Call.literal, Value.toJson, RuleUsage.tag]
    · rw [Clause.toJson_eq_arr hnorule, Clause.literals_ofItems]

theorem isLiteral_of_mem_map {values : List Value}
    (h : ∀ v ∈ values, v.Canonical Value.marksKind) :
    ∀ j ∈ values.map Value.toJson, IsLiteral MarksKind j := by
  intro j hj
  obtain ⟨v, hv, rfl⟩ := List.mem_map.mp hj
  exact isLiteral_iff.mpr ⟨v, h v hv, rfl⟩

/-- The grammar admits what canonical clauses are written as. -/
theorem isClause_iff {j : Json} :
    IsClause MarksKind j ↔ ∃ c : Clause, c.Canonical Value.marksKind ∧ c.toJson = j := by
  constructor
  · exact IsClause.exists_canonical
  · intro h
    obtain ⟨c, hc, rfl⟩ := h
    by_cases hrule : ∃ r, c = .rule r
    · obtain ⟨r, rfl⟩ := hrule
      rw [Clause.toJson, RuleUsage.toJson_eq, List.map_cons]
      exact .rule r.name _ (isLiteral_of_mem_map hc)
    · rw [not_exists] at hrule
      obtain ⟨hliterals, -, hcall⟩ := (Clause.canonical_iff hrule).mp hc
      rw [Clause.toJson_eq_arr hrule]
      refine .list _ (isLiteral_of_mem_map hliterals) ?_
      -- Literals that are spelled as a rule are the literals of that rule.
      intro name args hmap
      obtain ⟨values, hvalues, hitems⟩ := Clause.exists_call_of_map_toJson hmap
      obtain ⟨first, rest, rfl, hfirst, -⟩ := List.map_eq_cons_iff.mp hitems
      obtain rfl := Value.toJson_eq_str_iff.mp hfirst
      exact hcall ⟨name, rest⟩ hvalues

end Grammar

end DatalogClient
