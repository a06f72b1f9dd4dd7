import DatalogClient.Proofs.Settings.Rebasing

/-!
# Settings under other base addresses

Settings can be used if all their addresses are addresses of the web and nothing is waited for no
time at all. An address of the web stays one whatever is written after it. So to move settings that
can be used can spoil the base address only, and then it is the base address that is blamed.

Where every address of an operation either begins with the base or with neither of two bases, to
move to the one and on to the other is to move to the other at once.

## Main definitions

* `Settings.IsWebAddress` — addresses of the web
* `Settings.LessSlash` — an address less the slash at its end
* `Settings.Usable` — settings that can be used

## Main results

* `Settings.validate_iff_usable` — the check passes the settings that can be used
* `Settings.IsWebAddress.rebase` — moved addresses are addresses of the web
* `Settings.rebase_rebase` — to move an address twice
* `Settings.usable_withApiUrl` — what becomes of settings that are moved once and twice
-/

namespace DatalogClient

namespace Settings

variable {base old mid new url : String}

/-- The text is an address of the web: one of two schemes, and after it something that does not
begin with a slash. -/
def IsWebAddress (url : String) : Prop :=
  ∃ scheme ∈ ["http://", "https://"], ∃ c rest, url.toList = scheme.toList ++ c :: rest ∧ c ≠ '/'

/-- The base is the text less one slash at its end, if there is one. -/
def LessSlash (url base : String) : Prop :=
  url.toList = base.toList ++ ['/'] ∨ url = base ∧ ∀ rest, url.toList ≠ rest ++ ['/']

/-- The settings can be used: all addresses are addresses of the web, and there is time to connect
and to wait for an answer. -/
structure Usable (s : Settings) : Prop where
  base : IsWebAddress s.apiUrl
  operation : ∀ operation ∈ operations, IsWebAddress (operation s)
  request : s.requestTimeoutMs ≠ 0
  connect : s.connectTimeoutMs ≠ 0

theorem forall_mem_operations {p : (Settings → String) → Prop} :
    (∀ operation ∈ operations, p operation) ↔
      p fetchSchemaEndpoint ∧ p submitQueryEndpoint ∧ p translateQueryEndpoint ∧
        p fetchEntityShapesEndpoint := by
  simp [operations]

/-! ### Checking -/

theorem afterScheme?_eq_some_iff {text : List Char} :
    afterScheme? url = some text ↔
      ∃ scheme ∈ ["http://", "https://"], url.toList = scheme.toList ++ text := by
  rw [afterScheme?, Option.or_eq_some_iff, after?_eq_some_iff, after?_eq_some_iff]
  constructor
  · rintro (h | ⟨-, h⟩)
    · exact ⟨_, List.mem_cons_self, h⟩
    · exact ⟨_, List.mem_cons_of_mem _ List.mem_cons_self, h⟩
  · rintro ⟨scheme, hscheme, h⟩
    simp only [List.mem_cons, List.not_mem_nil, or_false] at hscheme
    rcases hscheme with rfl | rfl
    · exact .inl h
    · -- The longer scheme does not begin with the shorter one.
      exact .inr ⟨by rw [h]; rfl, h⟩

theorem isUrl_iff : isUrl url = true ↔ IsWebAddress url := by
  have hhost : isUrl url = true ↔ ∃ c rest, afterScheme? url = some (c :: rest) ∧ c ≠ '/' := by
    unfold isUrl
    rw [show (after? "http://".toList url.toList).or (after? "https://".toList url.toList) =
      afterScheme? url from rfl]
    rcases afterScheme? url with _ | _ | ⟨c, rest⟩ <;> simp
  rw [hhost]
  constructor
  · rintro ⟨c, rest, htext, hc⟩
    obtain ⟨scheme, hscheme, h⟩ := afterScheme?_eq_some_iff.mp htext
    exact ⟨scheme, hscheme, c, rest, h, hc⟩
  · rintro ⟨scheme, hscheme, c, rest, h, hc⟩
    exact ⟨c, rest, afterScheme?_eq_some_iff.mpr ⟨scheme, hscheme, h⟩, hc⟩

theorem checkUrl_eq_ok_iff {field : String} : checkUrl field url = .ok () ↔ IsWebAddress url := by
  rw [← isUrl_iff, checkUrl]
  cases isUrl url <;> simp

theorem checkTimeout_eq_ok_iff {field : String} {ms : UInt64} :
    checkTimeout field ms = .ok () ↔ ms ≠ 0 := by
  rw [checkTimeout]
  split <;> simp_all

theorem bind_eq_ok_iff {first next : Except ConfigError Unit} :
    (first >>= fun _ => next) = .ok () ↔ first = .ok () ∧ next = .ok () := by
  cases first with
  | error e => exact iff_of_false nofun fun h => nomatch h.1
  | ok => exact (and_iff_right rfl).symm

/-- The check passes the settings that can be used. -/
theorem validate_iff_usable (s : Settings) : s.validate = .ok () ↔ s.Usable := by
  unfold validate
  simp only [bind_eq_ok_iff, checkUrl_eq_ok_iff, checkTimeout_eq_ok_iff]
  constructor
  · rintro ⟨hbase, hschema, hquery, htranslate, hshapes, hrequest, hconnect⟩
    exact ⟨hbase, forall_mem_operations.mpr ⟨hschema, hquery, htranslate, hshapes⟩, hrequest,
      hconnect⟩
  · intro h
    obtain ⟨hschema, hquery, htranslate, hshapes⟩ := forall_mem_operations.mp h.operation
    exact ⟨h.base, hschema, hquery, htranslate, hshapes, h.request, h.connect⟩

/-- The base address is the first to be blamed. -/
theorem validate_of_not_isWebAddress {s : Settings} (h : ¬ IsWebAddress s.apiUrl) :
    s.validate =
      .error (.invalid "api_url" ("expected an http(s) URL, got '" ++ s.apiUrl ++ "'")) := by
  have hcheck : checkUrl "api_url" s.apiUrl =
      .error (.invalid "api_url" ("expected an http(s) URL, got '" ++ s.apiUrl ++ "'")) := by
    rw [checkUrl, if_neg (mt isUrl_iff.mp h)]
  unfold validate
  rw [hcheck]
  rfl

/-! ### Moving once -/

theorem lessSlash_iff : LessSlash url base ↔ trimBase url = base := by
  by_cases hslash : ∃ rest, url.toList = rest ++ ['/']
  · obtain ⟨rest, hrest⟩ := hslash
    have htrim : trimBase url = String.ofList rest := by simp [trimBase, hrest]
    have hsame : String.ofList rest = base ↔ rest = base.toList := by
      rw [← String.toList_inj, String.toList_ofList]
    rw [htrim, LessSlash, hrest, List.append_cancel_right_eq, hsame]
    exact or_iff_left fun h => h.2 rest rfl
  · have htrim : trimBase url = url := by
      unfold trimBase
      split
      · rename_i rest hrest
        have hurl : url.toList = rest.reverse ++ ['/'] := by
          rw [← List.reverse_cons, ← hrest, List.reverse_reverse]
        exact absurd ⟨rest.reverse, hurl⟩ hslash
      · rfl
    rw [not_exists] at hslash
    rw [htrim, LessSlash, and_iff_left hslash]
    exact or_iff_right (hslash base.toList)

/-- An address of the web stays one whatever is written after it. -/
theorem IsWebAddress.of_prefix (h : IsWebAddress base) (hurl : base.toList <+: url.toList) :
    IsWebAddress url := by
  obtain ⟨scheme, hscheme, c, rest, hbase, hc⟩ := h
  obtain ⟨more, hmore⟩ := hurl
  refine ⟨scheme, hscheme, c, rest ++ more, ?_, hc⟩
  rw [← hmore, hbase, List.append_assoc, List.cons_append]

/-- A moved address begins with the new base, and another one is as it was. -/
theorem IsWebAddress.rebase (hnew : IsWebAddress new) (hurl : IsWebAddress url) :
    IsWebAddress (rebase old new url) := by
  by_cases h : ∃ rest, url.toList = old.toList ++ rest
  · obtain ⟨rest, hrest⟩ := h
    exact hnew.of_prefix ⟨rest, (rebase_of_append hrest).symm⟩
  · rw [rebase_of_not h]
    exact hurl

/-- Settings that can be used can be used under any address of the web. -/
theorem Usable.withApiUrl {s : Settings} (h : s.Usable) (hbase : IsWebAddress (trimBase url)) :
    (s.withApiUrl url).Usable where
  base := hbase
  operation := by
    intro operation hoperation
    rw [operation_withApiUrl s url hoperation]
    exact hbase.rebase (h.operation operation hoperation)
  request := h.request
  connect := h.connect

/-! ### Moving twice -/

/-- An address that begins with the old base, or else not with the one between, comes to the new
base by way of that. -/
theorem rebase_rebase
    (h : old.toList <+: url.toList ∨ ¬ old.toList <+: url.toList ∧ ¬ mid.toList <+: url.toList) :
    rebase mid new (rebase old mid url) = rebase old new url := by
  rcases h with ⟨rest, hrest⟩ | ⟨hold, hmid⟩
  · have hfirst : (rebase old mid url).toList = mid.toList ++ rest := rebase_of_append hrest.symm
    rw [← String.toList_inj, rebase_of_append hfirst, rebase_of_append hrest.symm]
  · have hnone : ∀ start : String, ¬ start.toList <+: url.toList →
        ¬ ∃ rest, url.toList = start.toList ++ rest := by
      rintro start hstart ⟨rest, hrest⟩
      exact hstart ⟨rest, hrest.symm⟩
    rw [rebase_of_not (hnone old hold), rebase_of_not (hnone mid hmid),
      rebase_of_not (hnone old hold)]

theorem withApiUrl_withApiUrl {s : Settings} (next : String)
    (h : ∀ operation ∈ operations, s.apiUrl.toList <+: (operation s).toList ∨
      ¬ s.apiUrl.toList <+: (operation s).toList ∧
        ¬ (trimBase url).toList <+: (operation s).toList) :
    (s.withApiUrl url).withApiUrl next = s.withApiUrl next := by
  have htwice : ∀ operation ∈ operations,
      rebase (trimBase url) (trimBase next) (rebase s.apiUrl (trimBase url) (operation s)) =
        rebase s.apiUrl (trimBase next) (operation s) :=
    fun operation hoperation => rebase_rebase (h operation hoperation)
  obtain ⟨hschema, hquery, htranslate, hshapes⟩ := forall_mem_operations.mp htwice
  simp only [withApiUrl, hschema, hquery, htranslate, hshapes]

/-- Settings that can be used and are moved can be used exactly if the new base, less a slash at its
end, is an address of the web, and else that is what is wrong with them. To move on is to move at
once, where every address of an operation begins with the base or with neither the base nor the one
between. -/
theorem usable_withApiUrl (s : Settings) {url base : String} (hbase : LessSlash url base)
    (next : String) :
    (s.validate = .ok () →
      ((s.withApiUrl url).validate = .ok () ↔ IsWebAddress base) ∧
      (¬ IsWebAddress base → (s.withApiUrl url).validate =
        .error (.invalid "api_url" ("expected an http(s) URL, got '" ++ base ++ "'")))) ∧
    ((∀ operation ∈ operations, s.apiUrl.toList <+: (operation s).toList ∨
        ¬ s.apiUrl.toList <+: (operation s).toList ∧ ¬ base.toList <+: (operation s).toList) →
      (s.withApiUrl url).withApiUrl next = s.withApiUrl next) := by
  obtain rfl := lessSlash_iff.mp hbase
  refine ⟨?_, withApiUrl_withApiUrl next⟩
  intro hvalid
  have husable : s.Usable := (validate_iff_usable s).mp hvalid
  refine ⟨?_, @validate_of_not_isWebAddress (s.withApiUrl url)⟩
  rw [validate_iff_usable]
  exact ⟨Usable.base, husable.withApiUrl⟩

/-- Settings for this machine that have documents translated elsewhere. -/
def borrowedTranslation : Settings :=
  { default with translateQueryEndpoint := "https://elsewhere.example.com/translate" }

/-- They can be used under another address, cannot under one without a scheme, and it does not
matter which way they come to a third one. -/
theorem borrowedTranslation_moved :
    borrowedTranslation.validate = .ok () ∧
      (borrowedTranslation.withApiUrl "https://prod.example.com/").validate = .ok () ∧
      (borrowedTranslation.withApiUrl "localhost").validate =
        .error (.invalid "api_url" "expected an http(s) URL, got 'localhost'") ∧
      (borrowedTranslation.withApiUrl "https://prod.example.com/").withApiUrl "http://[::1]" =
        borrowedTranslation.withApiUrl "http://[::1]" := by
  have hvalid : borrowedTranslation.validate = .ok () := by rfl
  have hslash : LessSlash "https://prod.example.com/" "https://prod.example.com" :=
    lessSlash_iff.mpr (by decide)
  have hplain : LessSlash "localhost" "localhost" := lessSlash_iff.mpr (by decide)
  have hprod : IsWebAddress "https://prod.example.com" :=
    ⟨"https://", by decide, 'p', "rod.example.com".toList, by decide, by decide⟩
  have hlocal : ¬ IsWebAddress "localhost" := by
    rw [← isUrl_iff]
    decide
  refine ⟨hvalid, ?_, ?_, ?_⟩
  · exact ((usable_withApiUrl borrowedTranslation hslash "").1 hvalid).1.mpr hprod
  · exact ((usable_withApiUrl borrowedTranslation hplain "").1 hvalid).2 hlocal
  · exact (usable_withApiUrl borrowedTranslation hslash _).2 (by decide)

end Settings

end DatalogClient
