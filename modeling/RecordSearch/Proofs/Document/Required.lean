import RecordSearch.Proofs.Database.Algebra
import RecordSearch.Proofs.Document.Queries
import RecordSearch.Proofs.Document.Selection

/-!
# Required fields under selected modes

A search under selected modes drops the criteria on hidden fields, and then asks for all required fields nevertheless.

* `decodeQuery_kept`: what is kept is decoded as before.
* `Lacks`: the first required field that the selected modes hide.
* `search_kept_eq_error_iff`: the kept part of a query that was answered is refused for such a field only.
* `answer_of_hidden_required`: hence the criteria of an answered search are answered under selected modes exactly if
  these show every required field.
* `answer_lacks_hidden`: a search that fails.
-/

namespace RecordSearch
namespace Document

open Database Traversal

variable {doc : Document} {prefs : Preferences} {criteria : Members} {selected : List String} {operator : Operator}

/-- The part of a query on the fields that a selection of modes shows. -/
def keptQuery (doc : Document) (selected : List String) (query : Query) : Query :=
  query.filter fun (name, _) => shows (doc.shown? selected) name

/-- The field may be left out, or is shown. -/
def Spared (doc : Document) (selected : List String) (entry : String × Field) : Prop :=
  entry.2.optional = true ∨ entry.1 ∈ doc.visibleFields selected

/-- The name is that of the first required field that the selected modes hide. -/
def Lacks (doc : Document) (selected : List String) (name : String) : Prop :=
  ∃ before field after, doc.database.fields = before ++ (name, field) :: after ∧
    (∀ other ∈ before, doc.Spared selected other) ∧ ¬ doc.Spared selected (name, field)

section Answers

/-- An answer takes criteria that are decoded, and a query that is searched for. -/
theorem answer_eq_ok_iff (hits : List Nat) :
    doc.answer prefs operator selected criteria = .ok hits ↔
      ∃ query, doc.decodeQuery prefs (doc.keptCriteria selected criteria) = .ok query ∧
        doc.search query operator = .ok hits := by
  rw [answer, bind_eq_ok_iff]
  simp only [mapError_eq_ok_iff]

theorem answer_of_decodeQuery {query : Query}
    (h : doc.decodeQuery prefs (doc.keptCriteria selected criteria) = .ok query) :
    doc.answer prefs operator selected criteria = (doc.search query operator).mapError (.searchFailed doc.name) := by
  rw [answer, h]
  rfl

/-- Dropping criteria leaves the others decoded as before. -/
theorem decodeQuery_kept {query : Query} (h : doc.decodeQuery prefs criteria = .ok query) (selected : List String) :
    doc.decodeQuery prefs (doc.keptCriteria selected criteria) = .ok (doc.keptQuery selected query) :=
  mapM_keyed_filter h fun name => shows (doc.shown? selected) name

end Answers

section Refusals

variable {query : Query}

/-- A field that is supplied stays supplied if it may be left out, or if it is shown. -/
theorem supplied_kept_iff (hselected : selected ≠ []) {entry : String × Field} (h : Supplied query entry) :
    Supplied (doc.keptQuery selected query) entry ↔ doc.Spared selected entry := by
  rw [Supplied, Spared]
  refine or_congr_right' fun hrequired => ?_
  have hname : entry.1 ∈ Members.names query := (Members.has_iff _ _).mp (h.resolve_left hrequired)
  have hkept : Members.names (doc.keptQuery selected query) =
      (Members.names query).filter (shows (doc.shown? selected)) := by
    rw [Members.names, Members.names, List.filter_map]
    rfl
  rw [Members.has_iff, hkept, List.mem_filter, shows_iff hselected, and_iff_right hname]

variable (hselected : selected ≠ []) {hits : List Nat} (h : doc.search query operator = .ok hits)
include hselected h

/-- Of a query that is searched for, the part on the shown fields is searched for exactly if no required field is
hidden. -/
theorem search_kept_succeeds_iff :
    (∃ hits', doc.search (doc.keptQuery selected query) operator = .ok hits') ↔
      ∀ entry ∈ doc.database.fields, doc.Spared selected entry := by
  obtain ⟨hsupplied, haccepted⟩ := (searchIndices_succeeds_iff _ _ _).mp ⟨hits, h⟩
  have hkept : ∀ entry ∈ doc.keptQuery selected query, Accepted doc.database.fields entry :=
    fun entry hentry => haccepted entry (List.mem_of_mem_filter hentry)
  refine (searchIndices_succeeds_iff _ _ _).trans ((and_iff_left hkept).trans ?_)
  exact forall₂_congr fun entry hentry => supplied_kept_iff hselected (hsupplied entry hentry)

/-- It is refused for the first required field that is hidden only. -/
theorem search_kept_eq_error_iff (e : Error) :
    doc.search (doc.keptQuery selected query) operator = .error e ↔
      ∃ name, doc.Lacks selected name ∧ e = .missingField name := by
  obtain ⟨hsupplied, haccepted⟩ := (searchIndices_succeeds_iff _ _ _).mp ⟨hits, h⟩
  have hspared : ∀ entry ∈ doc.database.fields,
      (Supplied (doc.keptQuery selected query) entry ↔ doc.Spared selected entry) :=
    fun entry hentry => supplied_kept_iff hselected (hsupplied entry hentry)
  rw [search, searchIndices_eq_error_iff]
  constructor
  · intro hrefused
    cases hrefused with
    | missing before entry after hfields hbefore hentry =>
        refine ⟨entry.1, ⟨before, entry.2, after, hfields, fun other hother => ?_, ?_⟩, rfl⟩
        · exact (hspared other (by simp [hfields, hother])).mp (hbefore other hother)
        · exact fun hspare => hentry ((hspared entry (by simp [hfields])).mpr hspare)
    | offence _ before entry after hquery _ _ hentry =>
        -- No criteria offend, since those of the whole query are accepted.
        have hmem : entry ∈ doc.keptQuery selected query := by
          simp [hquery]
        obtain ⟨field, hfield, hvalid⟩ := haccepted entry (List.mem_of_mem_filter hmem)
        cases hentry with
        | unknown hnone => cases hfield.symm.trans hnone
        | invalid found cause hfound hcause =>
            obtain rfl : field = found := Option.some.inj (hfield.symm.trans hfound)
            cases hvalid.symm.trans hcause
  · rintro ⟨name, ⟨before, field, after, hfields, hbefore, hentry⟩, rfl⟩
    refine .missing before (name, field) after hfields (fun other hother => ?_) ?_
    · exact (hspared other (by simp [hfields, hother])).mpr (hbefore other hother)
    · exact fun hsupply => hentry ((hspared _ (by simp [hfields])).mp hsupply)

end Refusals

/-- **Selected modes ask for the required fields that they hide.**  Criteria that are answered without selected modes
are answered under selected modes exactly if these show every required field.  Otherwise the criteria on hidden fields are
dropped, with a warning for each, and the search fails since the first hidden field that is required has none. -/
theorem answer_of_hidden_required {hits : List Nat} (hanswer : doc.answer prefs operator [] criteria = .ok hits)
    (hselected : selected ≠ []) :
    ((∃ hits', doc.answer prefs operator selected criteria = .ok hits') ↔
      ∀ entry ∈ doc.database.fields, doc.Spared selected entry) ∧
    (∀ failure, doc.answer prefs operator selected criteria = .error failure ↔
      ∃ name, doc.Lacks selected name ∧ failure = .searchFailed doc.name (.missingField name)) ∧
    ∀ name, doc.Lacks selected name →
      name ∈ Members.names criteria ∧ .hiddenCriteria doc.name name ∈ doc.droppingWarnings selected criteria := by
  obtain ⟨query, hdecoded, hsearch⟩ := (answer_eq_ok_iff hits).mp hanswer
  rw [keptCriteria_nil] at hdecoded
  rw [answer_of_decodeQuery (decodeQuery_kept hdecoded selected)]
  refine ⟨?succeeds, ?fails, ?warns⟩
  case succeeds =>
    simp only [mapError_eq_ok_iff]
    exact search_kept_succeeds_iff hselected hsearch
  case fails =>
    intro failure
    rw [mapError_eq_error_iff]
    simp only [search_kept_eq_error_iff hselected hsearch]
    constructor
    · rintro ⟨_, ⟨name, hlacks, rfl⟩, rfl⟩
      exact ⟨name, hlacks, rfl⟩
    · rintro ⟨name, hlacks, rfl⟩
      exact ⟨_, ⟨name, hlacks, rfl⟩, rfl⟩
  case warns =>
    rintro name ⟨before, field, after, hfields, _, hentry⟩
    obtain ⟨hrequired, hhidden⟩ := not_or.mp hentry
    obtain ⟨hsupplied, _⟩ := (searchIndices_succeeds_iff _ _ _).mp ⟨hits, hsearch⟩
    have hname : name ∈ Members.names query :=
      (Members.has_iff _ _).mp ((hsupplied (name, field) (by simp [hfields])).resolve_left hrequired)
    rw [names_of_decodeQuery hdecoded] at hname
    obtain ⟨entry, hmem, rfl⟩ := List.mem_map.mp hname
    exact ⟨hname, List.mem_map_of_mem ((mem_droppedCriteria_iff hselected criteria entry).mpr ⟨hmem, hhidden⟩)⟩

/-- A search for essays of some pages under two selections, one of which hides the pages. -/
theorem answer_of_hidden_required_pages :
    let fields : List Json := [
      .object [("name", .string "Title"), ("type", .string "Text"), ("key", .string "title")],
      .object [("name", .string "Pages"), ("type", .string "Integer"), ("key", .string "pages"),
        ("optional", .bool false), ("modes", .string "essay")]]
    let document : Json := .object [("version", .string "1.0"), ("fields", .array fields),
      ("data", .array [.object [("pages", .int 612)], .object [("pages", .int 90)]])]
    let criteria : Members := [("Title", .string "Dune"), ("Pages", .int 90)]
    ∃ warnings doc, ofJson "books" document = ⟨warnings, .ok doc⟩ ∧
      doc.answer {} .and [] criteria = .ok [1] ∧
      (∃ hits, doc.answer {} .and ["essay", "fiction"] criteria = .ok hits) ∧
      doc.answer {} .and ["fiction"] criteria = .error (.searchFailed "books" (.missingField "Pages")) ∧
      .hiddenCriteria "books" "Pages" ∈ doc.droppingWarnings ["fiction"] criteria := by
  intro fields document criteria
  have hread : ∃ warnings doc, ofJson "books" document = ⟨warnings, .ok doc⟩ ∧ doc.name = "books" ∧
      doc.database.fields = [("Title", ⟨[.key "title"], true, .text⟩),
        ("Pages", ⟨[.key "pages"], false, .integer none none⟩)] ∧
      doc.visibleFields ["essay", "fiction"] = ["Title", "Pages"] ∧ doc.visibleFields ["fiction"] = ["Title"] ∧
      doc.answer {} .and [] criteria = .ok [1] :=
    ⟨_, _, rfl, rfl, rfl, rfl, rfl, rfl⟩
  obtain ⟨warnings, doc, haccepted, hname, hfields, hall, hfiction, hanswer⟩ := hread
  have hspared : ∀ entry ∈ doc.database.fields, doc.Spared ["essay", "fiction"] entry := by
    simp [hfields, hall, Spared]
  have hlacks : doc.Lacks ["fiction"] "Pages" := by
    refine ⟨[("Title", ⟨[.key "title"], true, .text⟩)], ⟨[.key "pages"], false, .integer none none⟩, [], hfields,
      ?_, ?_⟩
    · simp [Spared]
    · simp [hfiction, Spared]
  obtain ⟨hanswered, _, _⟩ := answer_of_hidden_required hanswer (List.cons_ne_nil "essay" ["fiction"])
  obtain ⟨_, hfails, hwarns⟩ := answer_of_hidden_required hanswer (List.cons_ne_nil "fiction" [])
  rw [hname] at hfails hwarns
  exact ⟨warnings, doc, haccepted, hanswer, hanswered.mpr hspared, (hfails _).mpr ⟨"Pages", hlacks, rfl⟩,
    (hwarns "Pages" hlacks).2⟩

/-- One criterion, on a required field: answered without selected modes, and refused under modes that hide the field. -/
theorem answer_lacks_hidden :
    let fields : List Json := [
      .object [("name", .string "Title"), ("type", .string "Text"), ("key", .string "title")],
      .object [("name", .string "Pages"), ("type", .string "Integer"), ("key", .string "pages"),
        ("optional", .bool false), ("modes", .string "essay")]]
    let document : Json := .object [("version", .string "1.0"), ("name", .string "books"), ("fields", .array fields),
      ("data", .array [.object [("title", .string "Dune"), ("pages", .int 612)]])]
    let criteria : Members := [("Pages", .int 612)]
    ∃ warnings doc, ofJson "a" document = ⟨warnings, .ok doc⟩ ∧
      doc.answer {} .and [] criteria = .ok [0] ∧
      doc.answer {} .and ["fiction"] criteria = .error (.searchFailed "books" (.missingField "Pages")) ∧
      doc.droppingWarnings ["fiction"] criteria = [.hiddenCriteria "books" "Pages"] := by
  intro fields document criteria
  exact ⟨_, _, rfl, rfl, rfl, rfl⟩

end Document
end RecordSearch
