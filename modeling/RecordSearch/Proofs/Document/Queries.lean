import RecordSearch.Proofs.Database.Search
import RecordSearch.Proofs.Document.Layout
import RecordSearch.Proofs.Document.Settings
import RecordSearch.Proofs.Field.Fitting

/-!
# Queries that a document decodes

Criteria are decoded by the kind of the field that they name, so that a search of the decoded query has little left to
refuse.

* `Declares`: a field of the document has the name of the criteria, and the criteria fit it.
* `Refuses`: why a decoded query may still be refused: a required field is left out, or a value exceeds its field.
* `decodeQuery_fits`: what is decoded is declared, under the names that were written, and a search of it is refused for
  these reasons only.
-/

namespace RecordSearch

namespace Presentation

variable {p : Presentation} {kind : FieldKind} {prefs : Preferences} {value : Json}

/-- Criteria are read in the shape of the field. -/
theorem fits_of_reads {criteria : Criteria} (h : Reads p prefs value kind criteria) : Field.Fits kind criteria := by
  cases h with
  | single choices _ => exact .single choices _
  | multi choices _ _ _ => exact .multi choices _ _
  | integer min max _ _ => exact .integer min max _ _
  | text _ _ _ _ => exact .text _ _ _

theorem fits_of_queryOfJson {query : FieldQuery} (h : p.queryOfJson kind prefs value = .ok query) :
    Field.Fits kind query.criteria := by
  obtain ⟨hreads, _⟩ := (queryOfJson_eq_ok_iff _).mp h
  exact fits_of_reads hreads

end Presentation

namespace Document

open Database Layout Traversal

variable {doc : Document} {prefs : Preferences} {query : Query} {operator : Operator} {e : Error}

/-- The document has a field of the name, with its presentation, and the criteria fit the field. -/
structure Declares (doc : Document) (entry : String × FieldQuery) : Prop where
  presented : entry.1 ∈ Members.names doc.presentations
  fits : ∃ field, doc.database.field? entry.1 = some field ∧ Field.Fits field.kind entry.2.criteria

/-- Why criteria that fit their fields may not be searched for. -/
inductive Refuses (doc : Document) (query : Query) : Error → Prop
  | missing {entry : String × Field}
      (hentry : entry ∈ doc.database.fields)
      (hrequired : entry.2.optional = false)
      (habsent : entry.1 ∉ Members.names query) :
      Refuses doc query (.missingField entry.1)
  | exceeds {entry : String × FieldQuery} {field : Field} {cause : CriteriaError}
      (hentry : entry ∈ query)
      (hfield : doc.database.field? entry.1 = some field)
      (hcause : Field.Exceeds field.kind entry.2.criteria cause) :
      Refuses doc query (.inField entry.1 (.invalidCriteria cause))

/-- Criteria that are decoded for a name are declared under it. -/
theorem declares_of_decodeCriteria {name : String} {value : Json} {decoded : FieldQuery}
    (h : doc.decodeCriteria prefs name value = .ok decoded) : doc.Declares (name, decoded) := by
  rw [decodeCriteria] at h
  split at h
  · rename_i field p hfield hp
    rw [mapError_eq_ok_iff] at h
    refine ⟨?_, field, hfield, Presentation.fits_of_queryOfJson h⟩
    by_contra hnone
    rw [← Members.get?_eq_none_iff, hp] at hnone
    cases hnone
  · cases h

theorem names_of_decodeQuery {criteria : Members} (h : doc.decodeQuery prefs criteria = .ok query) :
    Members.names query = Members.names criteria :=
  keys_of_mapM_keyed h

theorem declares_of_decodeQuery {criteria : Members} (h : doc.decodeQuery prefs criteria = .ok query) :
    ∀ entry ∈ query, doc.Declares entry := by
  intro entry hentry
  obtain ⟨written, _, hname, hdecoded⟩ := exists_of_mem_mapM_keyed h hentry
  have hdeclares := declares_of_decodeCriteria hdecoded
  rw [← hname] at hdeclares
  exact hdeclares

/-- A query whose criteria are declared is refused for what it leaves out or exceeds only. -/
theorem refuses_of_search (hdeclares : ∀ entry ∈ query, doc.Declares entry)
    (h : doc.search query operator = .error e) : doc.Refuses query e := by
  rw [search, searchIndices_eq_error_iff] at h
  cases h with
  | missing before entry after hfields _ hentry =>
      have hmem : entry ∈ doc.database.fields := by
        simp [hfields]
      rw [Supplied, not_or, Members.has_iff] at hentry
      exact .missing hmem (Bool.eq_false_iff.mpr hentry.1) hentry.2
  | offence _ before entry after hquery _ _ hentry =>
      have hmem : entry ∈ query := by
        simp [hquery]
      obtain ⟨field, hfield, hfits⟩ := (hdeclares entry hmem).fits
      cases hentry with
      | unknown hnone =>
          cases hfield.symm.trans hnone
      | invalid found cause hfound hcause =>
          obtain rfl : field = found := Option.some.inj (hfield.symm.trans hfound)
          obtain ⟨reason, hreason, rfl⟩ := (Field.validate_eq_error_iff_of_fits hfits cause).mp hcause
          exact .exceeds hmem hfield hreason

/-- **Decoded queries fit the fields of their document.**  If the criteria for a document that is accepted are decoded,
the query has their names in their order, each is in the layout, and its criteria have the shape of its field.  A search
of the query is therefore refused only if a required field is left out or a value exceeds its field. -/
theorem decodeQuery_fits {fallback : String} {value : Json} {warnings : List Warning} {criteria : Members}
    (haccepted : ofJson fallback value = ⟨warnings, .ok doc⟩) (hdecoded : doc.decodeQuery prefs criteria = .ok query) :
    Members.names query = Members.names criteria ∧
    (∀ entry ∈ query, entry.1 ∈ namesOf doc.layout ∧ doc.Declares entry) ∧
    ∀ operator e, doc.search query operator = .error e → doc.Refuses query e := by
  have hdeclares := declares_of_decodeQuery hdecoded
  refine ⟨names_of_decodeQuery hdecoded, fun entry hentry => ⟨?_, hdeclares entry hentry⟩,
    fun operator e => refuses_of_search hdeclares⟩
  obtain ⟨_, _, hreads⟩ := (ofJson_eq_ok_iff _ _ _ _).mp haccepted
  rw [← (inStep_of_reads hreads).presentations]
  exact (hdeclares entry hentry).presented

/-- Criteria for a field of each kind, with a number of pages that no book has. -/
theorem decodeQuery_fits_pages :
    let fields : List Json := [
      .object [("name", .string "Genre"), ("type", .string "Option"), ("key", .string "genre")],
      .object [("name", .string "Tags"), ("type", .string "Option"), ("key", .string "tags"),
        ("multi_selection", .bool true)],
      .object [("name", .string "Pages"), ("type", .string "Integer"), ("key", .string "pages"), ("max", .int 900)],
      .object [("name", .string "Title"), ("type", .string "Text"), ("key", .string "title"),
        ("optional", .bool false)]]
    let document : Json := .object [("version", .string "1.0"), ("fields", .array fields),
      ("data", .array [.object [("genre", .string "essay"), ("tags", .array [.string "short"])]])]
    let criteria : Members := [("Tags", .array [.string "short"]), ("Title", .string "on"),
      ("Pages", .object [("value", .int 1000), ("comparison", .string "<")]), ("Genre", .string "essay")]
    ∃ warnings doc query, ofJson "books" document = ⟨warnings, .ok doc⟩ ∧ doc.decodeQuery {} criteria = .ok query ∧
      Members.names query = ["Tags", "Title", "Pages", "Genre"] ∧ (∀ entry ∈ query, doc.Declares entry) ∧
      doc.Refuses query (.inField "Pages" (.invalidCriteria (.aboveMaximum 1000 900))) := by
  intro fields document criteria
  have hread : ∃ warnings doc query, ofJson "books" document = ⟨warnings, .ok doc⟩ ∧
      doc.decodeQuery {} criteria = .ok query ∧
      doc.search query .and = .error (.inField "Pages" (.invalidCriteria (.aboveMaximum 1000 900))) :=
    ⟨_, _, _, rfl, rfl, rfl⟩
  obtain ⟨warnings, doc, query, haccepted, hdecoded, hsearch⟩ := hread
  obtain ⟨hnames, hentries, hrefuses⟩ := decodeQuery_fits haccepted hdecoded
  exact ⟨warnings, doc, query, haccepted, hdecoded, hnames, fun entry hentry => (hentries entry hentry).2,
    hrefuses .and _ hsearch⟩

end Document
end RecordSearch
