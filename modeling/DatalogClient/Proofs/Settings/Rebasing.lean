import DatalogClient.Settings.Basic
import Mathlib.Tactic.ByContra

/-!
# Moving to another base address

The addresses of operations that are moved with the base address are those that begin with its
text. That is not the same as to lie under it: the text of a base may go on as the name of another
host, or with more digits of a port, or as another name in its path. Such an address is moved as
well, to a place that neither address has named.

## Main definitions

* `Settings.operations` — the addresses of operations
* `Settings.host?` — the host of an address with its port
* `Settings.Under`, `Settings.RunsOn` — the two ways to begin with a base
* `Settings.Elsewhere` — addresses of different hosts or ports

## Main results

* `Settings.operation_withApiUrl` — where the address of an operation is moved to
* `Settings.host?_of_under` — what lies under a base has its host and port
* `Settings.moved_iff` — which addresses are moved, and when these all lie under the base
-/

namespace DatalogClient

namespace Settings

variable {base old new url : String}

/-- The addresses of operations. -/
def operations : List (Settings → String) :=
  [fetchSchemaEndpoint, submitQueryEndpoint, translateQueryEndpoint, fetchEntityShapesEndpoint]

/-- The sign ends the host of an address with its port. -/
def endsHost (c : Char) : Bool := c == '/' || c == '?' || c == '#'

/-- What follows the scheme of the web in an address. -/
def afterScheme? (url : String) : Option (List Char) :=
  (after? "http://".toList url.toList).or (after? "https://".toList url.toList)

/-- The host of an address with its port. -/
def host? (url : String) : Option (List Char) :=
  (afterScheme? url).map fun text => text.takeWhile fun c => !endsHost c

/-- The address is the base, or goes on from it with a path, a query or a fragment. -/
def Under (base url : String) : Prop :=
  url = base ∨ ∃ c rest, url.toList = base.toList ++ c :: rest ∧ endsHost c = true

/-- The address begins with the text of the base and goes on as something else than a path, a query
or a fragment. -/
def RunsOn (base url : String) : Prop :=
  ∃ c rest, url.toList = base.toList ++ c :: rest ∧ endsHost c = false

/-- Both addresses name a host, and not the same one with the same port. -/
def Elsewhere (base url : String) : Prop :=
  ∃ host other, host? base = some host ∧ host? url = some other ∧ other ≠ host

/-! ### Texts that begin alike -/

theorem after?_eq_some_iff {start text rest : List Char} :
    after? start text = some rest ↔ text = start ++ rest := by
  induction start generalizing text with
  | nil => rw [after?, Option.some_inj, List.nil_append]
  | cons c start ih =>
    cases text with
    | nil => simp [after?]
    | cons d text =>
      rw [after?, List.cons_append, List.cons.injEq]
      by_cases h : c = d
      · rw [if_pos h, ih, and_iff_right h.symm]
      · rw [if_neg h]
        exact iff_of_false (by simp) fun hsame => h hsame.1.symm

/-- What begins with a base lies under it or runs on from it. -/
theorem under_or_runsOn_iff :
    Under base url ∨ RunsOn base url ↔ ∃ rest, url.toList = base.toList ++ rest := by
  constructor
  · rintro ((rfl | ⟨c, rest, h, -⟩) | ⟨c, rest, h, -⟩)
    · exact ⟨[], (List.append_nil _).symm⟩
    · exact ⟨c :: rest, h⟩
    · exact ⟨c :: rest, h⟩
  · rintro ⟨rest, h⟩
    cases rest with
    | nil =>
      rw [List.append_nil] at h
      exact .inl (.inl (String.toList_inj.mp h))
    | cons c rest =>
      cases hc : endsHost c with
      | true => exact .inl (.inr ⟨c, rest, h, hc⟩)
      | false => exact .inr ⟨c, rest, h, hc⟩

/-- It does not do both. -/
theorem Under.not_runsOn (h : Under base url) : ¬ RunsOn base url := by
  rintro ⟨d, others, hruns, hd⟩
  rcases h with rfl | ⟨c, rest, hunder, hc⟩
  · exact absurd (List.append_right_eq_self.mp hruns.symm) (List.cons_ne_nil d others)
  · rw [hunder, List.append_cancel_left_eq, List.cons.injEq] at hruns
    rw [hruns.1, hd] at hc
    cases hc

/-! ### Hosts -/

theorem takeWhile_append_of_neg {p : Char → Bool} {c : Char} (hc : p c = false)
    (text rest : List Char) : (text ++ c :: rest).takeWhile p = text.takeWhile p := by
  induction text with
  | nil => simp [hc]
  | cons d text ih =>
    rw [List.cons_append, List.takeWhile_cons, List.takeWhile_cons, ih]

/-- What follows the scheme is followed by what follows the address. -/
theorem afterScheme?_of_append {text rest : List Char} (h : afterScheme? base = some text)
    (hurl : url.toList = base.toList ++ rest) : afterScheme? url = some (text ++ rest) := by
  rw [afterScheme?, Option.or_eq_some_iff, after?_eq_some_iff, after?_eq_some_iff] at h ⊢
  rcases h with h | ⟨-, h⟩
  · exact .inl (by rw [hurl, h, List.append_assoc])
  · -- The one scheme does not begin with the other.
    rw [hurl, h]
    exact .inr ⟨rfl, List.append_assoc ..⟩

/-- What lies under a base that names a host has its host and port. -/
theorem host?_of_under {host : List Char} (hhost : host? base = some host)
    (h : Under base url) : host? url = some host := by
  rcases h with rfl | ⟨c, rest, hurl, hc⟩
  · exact hhost
  · obtain ⟨text, htext, rfl⟩ := Option.map_eq_some_iff.mp hhost
    have hstop : (!endsHost c) = false := by rw [hc, Bool.not_true]
    rw [host?, afterScheme?_of_append htext hurl, Option.map_some,
      takeWhile_append_of_neg (p := fun c => !endsHost c) hstop]

theorem Under.not_elsewhere (h : Under base url) : ¬ Elsewhere base url := by
  rintro ⟨host, other, hhost, hother, hne⟩
  rw [host?_of_under hhost h, Option.some_inj] at hother
  exact hne hother.symm

/-! ### Moving -/

theorem rebase_of_append {rest : List Char} (h : url.toList = old.toList ++ rest) :
    (rebase old new url).toList = new.toList ++ rest := by
  rw [rebase, after?_eq_some_iff.mpr h, String.toList_append, String.toList_ofList]

theorem rebase_of_not (h : ¬ ∃ rest, url.toList = old.toList ++ rest) :
    rebase old new url = url := by
  have hnone : after? old.toList url.toList = none := by
    rw [Option.eq_none_iff_forall_ne_some]
    intro rest hrest
    exact h ⟨rest, after?_eq_some_iff.mp hrest⟩
  rw [rebase, hnone]

/-- An address is changed if it begins with the old base, and the new one is another. -/
theorem rebase_ne_iff :
    rebase old new url ≠ url ↔ new ≠ old ∧ ∃ rest, url.toList = old.toList ++ rest := by
  by_cases h : ∃ rest, url.toList = old.toList ++ rest
  · obtain ⟨rest, hrest⟩ := h
    rw [and_iff_left ⟨rest, hrest⟩, not_iff_not, ← String.toList_inj, rebase_of_append hrest, hrest,
      List.append_cancel_right_eq, String.toList_inj]
  · exact iff_of_false (not_not.mpr (rebase_of_not h)) fun hboth => h hboth.2

/-- The address of every operation is moved in one way. -/
theorem operation_withApiUrl (s : Settings) (url : String) {operation : Settings → String}
    (h : operation ∈ operations) :
    operation (s.withApiUrl url) = rebase s.apiUrl (trimBase url) (operation s) := by
  simp only [operations, List.mem_cons, List.not_mem_nil, or_false] at h
  rcases h with rfl | rfl | rfl | rfl <;> rfl

/-- The address of an operation is changed exactly if it lies under the old base or runs on from it,
and the new base is another one. So that only what lies under the old base is changed, and nothing
elsewhere, holds of it exactly if the new base is the old one or the address does not run on from
that. -/
theorem moved_iff (s : Settings) (url : String) :
    ∀ operation ∈ operations,
      (operation (s.withApiUrl url) ≠ operation s ↔
        trimBase url ≠ s.apiUrl ∧
          (Under s.apiUrl (operation s) ∨ RunsOn s.apiUrl (operation s))) ∧
      ((operation (s.withApiUrl url) ≠ operation s → Under s.apiUrl (operation s)) ∧
          (Elsewhere s.apiUrl (operation s) → operation (s.withApiUrl url) = operation s) ↔
        trimBase url = s.apiUrl ∨ ¬ RunsOn s.apiUrl (operation s)) := by
  intro operation hoperation
  have hmoved : operation (s.withApiUrl url) ≠ operation s ↔
      trimBase url ≠ s.apiUrl ∧
        (Under s.apiUrl (operation s) ∨ RunsOn s.apiUrl (operation s)) := by
    rw [operation_withApiUrl s url hoperation, rebase_ne_iff, under_or_runsOn_iff]
  refine ⟨hmoved, ?_⟩
  constructor
  · rintro ⟨hunder, -⟩
    by_contra hruns
    rw [not_or, not_not] at hruns
    obtain ⟨hne, hruns⟩ := hruns
    exact (hunder (hmoved.mpr ⟨hne, .inr hruns⟩)).not_runsOn hruns
  · intro h
    have hunder : operation (s.withApiUrl url) ≠ operation s → Under s.apiUrl (operation s) := by
      intro hne
      obtain ⟨hbase, hbegins⟩ := hmoved.mp hne
      exact hbegins.resolve_right (h.resolve_left hbase)
    refine ⟨hunder, ?_⟩
    intro helsewhere
    by_contra hne
    exact (hunder hne).not_elsewhere helsewhere

/-- Settings as they are named after a server. -/
def onePort : Settings := forApiUrl "http://localhost:80"

/-- The address of the schema then lies under the base, so that it is moved. -/
theorem onePort_moved :
    fetchSchemaEndpoint ∈ operations ∧ Under onePort.apiUrl onePort.fetchSchemaEndpoint ∧
      (onePort.withApiUrl "https://prod.example.com").fetchSchemaEndpoint ≠
        onePort.fetchSchemaEndpoint := by
  have hoperation : fetchSchemaEndpoint ∈ operations := List.mem_cons_self
  have hunder : Under onePort.apiUrl onePort.fetchSchemaEndpoint :=
    .inr ⟨'/', "api/datomic/schema".toList, by decide, rfl⟩
  have hbase : trimBase "https://prod.example.com" ≠ onePort.apiUrl := by decide
  exact ⟨hoperation, hunder, (moved_iff _ _ _ hoperation).1.mpr ⟨hbase, .inl hunder⟩⟩

/-- Settings for one server that ask another one for its schema: the port of the other begins like
that of the first. -/
def twoPorts : Settings :=
  { onePort with fetchSchemaEndpoint := "http://localhost:8080/api/datomic/schema" }

/-- The address of the other server is moved, and becomes one of a host that nobody has named. -/
theorem twoPorts_moved :
    twoPorts.validate = .ok () ∧ fetchSchemaEndpoint ∈ operations ∧
      Elsewhere twoPorts.apiUrl twoPorts.fetchSchemaEndpoint ∧
      ¬ Under twoPorts.apiUrl twoPorts.fetchSchemaEndpoint ∧
      (twoPorts.withApiUrl "https://prod.example.com").fetchSchemaEndpoint =
        "https://prod.example.com80/api/datomic/schema" := by
  have hruns : RunsOn twoPorts.apiUrl twoPorts.fetchSchemaEndpoint :=
    ⟨'8', "0/api/datomic/schema".toList, by decide, by decide⟩
  refine ⟨rfl, List.mem_cons_self, ?_, fun hunder => hunder.not_runsOn hruns, by decide⟩
  exact ⟨"localhost:80".toList, "localhost:8080".toList, by decide⟩

end Settings

end DatalogClient
