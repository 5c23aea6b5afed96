import RecordSearch.Command.Run
import RecordSearch.Proofs.Document.Layout

/-!
# Unknown names under selected modes

A search under selected modes keeps the criteria on the fields that they show, and only then finds out whether what it
kept names fields of the document.  A name that is unknown is never shown.

* `HasField`, `known`: the document has a field of the name; the criteria on such fields.
* `decodeQuery_of_unknown`: criteria with an unknown name are not decoded.
* `answer_of_unknown`: they are refused without selected modes; under selected modes they are dropped with the criteria
  on hidden fields, so that the answer is that of the others.
* `answer_hides_unknown`: such an answer.
-/

namespace RecordSearch
namespace Document

open Traversal

variable {doc : Document} {prefs : Preferences} {criteria : Members} {selected : List String}

/-- Some field of the document has the name. -/
def HasField (doc : Document) (name : String) : Prop :=
  name ∈ Members.names doc.database.fields

/-- The criteria on fields that the document has. -/
def known (doc : Document) (criteria : Members) : Members :=
  criteria.filter fun (name, _) => Members.has name doc.database.fields

section Dropping

theorem hasField_of_visible (h : doc.InStep) {name : String} (hname : name ∈ doc.visibleFields selected) :
    doc.HasField name := by
  rw [visibleFields, List.mem_map] at hname
  obtain ⟨entry, hentry, rfl⟩ := hname
  rw [HasField, h.fields, ← h.presentations]
  exact List.mem_map_of_mem (List.mem_of_mem_filter hentry)

variable (hselected : selected ≠ [])
include hselected

theorem shows_iff (name : String) : shows (doc.shown? selected) name = true ↔ name ∈ doc.visibleFields selected := by
  simp [shown?, shows, hselected]

/-- Selected modes drop the criteria under every name that they do not show. -/
theorem mem_droppedCriteria_iff (criteria : Members) (entry : String × Json) :
    entry ∈ doc.droppedCriteria selected criteria ↔ entry ∈ criteria ∧ entry.1 ∉ doc.visibleFields selected := by
  rw [droppedCriteria, List.mem_filter, ← shows_iff hselected, Bool.not_eq_true, Bool.not_eq_true']

/-- Criteria on unknown fields are never among those that selected modes keep. -/
theorem keptCriteria_known (h : doc.InStep) (criteria : Members) :
    doc.keptCriteria selected (doc.known criteria) = doc.keptCriteria selected criteria := by
  rw [keptCriteria, keptCriteria, known, List.filter_filter]
  refine List.filter_congr fun entry _ => ?_
  cases hshown : shows (doc.shown? selected) entry.1 with
  | false => simp [hshown]
  | true =>
      have hfield := hasField_of_visible h ((shows_iff hselected entry.1).mp hshown)
      simp [hshown, (Members.has_iff _ _).mpr hfield]

end Dropping

section Decoding

theorem decodeCriteria_of_unknown {name : String} (hname : ¬ doc.HasField name) (value : Json) :
    doc.decodeCriteria prefs name value = .error (.unknownField name) := by
  have hnone : doc.database.field? name = none := (Members.get?_eq_none_iff _ _).mpr hname
  rw [decodeCriteria, hnone]

/-- Criteria with an unknown name fail to be decoded, at some entry. -/
theorem decodeQuery_of_unknown (prefs : Preferences) (hunknown : ∃ entry ∈ criteria, ¬ doc.HasField entry.1) :
    ∃ entry ∈ criteria, ∃ e, doc.decodeCriteria prefs entry.1 entry.2 = .error e ∧
      doc.decodeQuery prefs criteria = .error e := by
  refine mapM_keyed_fails _ (fun entry => doc.decodeCriteria prefs entry.1 entry.2) criteria ?_
  obtain ⟨entry, hentry, hname⟩ := hunknown
  exact ⟨entry, hentry, _, decodeCriteria_of_unknown hname entry.2⟩

end Decoding

/-- **Selected modes hide unknown names.**  Criteria with an unknown name are refused without selected modes, and for
that name if the others are decoded.  Under selected modes they are dropped, with a warning that says that the field is
hidden, and the answer is that of the criteria on the fields that the document has. -/
theorem answer_of_unknown {fallback : String} {value : Json} {warnings : List Warning}
    (haccepted : ofJson fallback value = ⟨warnings, .ok doc⟩) (prefs : Preferences) (operator : Operator)
    (hunknown : ∃ entry ∈ criteria, ¬ doc.HasField entry.1) :
    (∃ e, doc.answer prefs operator [] criteria = .error (.invalidQuery doc.name e)) ∧
    ((∀ entry ∈ criteria, doc.HasField entry.1 → ∃ query, doc.decodeCriteria prefs entry.1 entry.2 = .ok query) →
      ∃ entry ∈ criteria, ¬ doc.HasField entry.1 ∧
        doc.answer prefs operator [] criteria = .error (.invalidQuery doc.name (.unknownField entry.1))) ∧
    ∀ selected ≠ [],
      (∀ entry, entry ∈ doc.droppedCriteria selected criteria ↔
        entry ∈ criteria ∧ entry.1 ∉ doc.visibleFields selected) ∧
      (∀ entry ∈ criteria, ¬ doc.HasField entry.1 →
        .hiddenCriteria doc.name entry.1 ∈ doc.droppingWarnings selected criteria) ∧
      doc.answer prefs operator selected criteria = doc.answer prefs operator selected (doc.known criteria) := by
  obtain ⟨_, _, hreads⟩ := (ofJson_eq_ok_iff _ _ _ _).mp haccepted
  have hstep := inStep_of_reads hreads
  obtain ⟨failing, hfailing, e, hfailed, hquery⟩ := decodeQuery_of_unknown prefs hunknown
  have hanswer : doc.answer prefs operator [] criteria = .error (.invalidQuery doc.name e) := by
    rw [answer, keptCriteria_nil, hquery]
    rfl
  refine ⟨⟨e, hanswer⟩, ?_, ?_⟩
  · intro hdecoded
    have hname : ¬ doc.HasField failing.1 := by
      intro hname
      obtain ⟨query, hok⟩ := hdecoded failing hfailing hname
      rw [hok] at hfailed
      cases hfailed
    obtain rfl : Error.unknownField failing.1 = e := by
      rw [decodeCriteria_of_unknown hname] at hfailed
      exact Except.error.inj hfailed
    exact ⟨failing, hfailing, hname, hanswer⟩
  · intro selected hselected
    refine ⟨mem_droppedCriteria_iff hselected criteria, ?_, ?_⟩
    · intro entry hentry hname
      have hhidden : entry.1 ∉ doc.visibleFields selected := fun hvisible => hname (hasField_of_visible hstep hvisible)
      have hdropped := (mem_droppedCriteria_iff hselected criteria entry).mpr ⟨hentry, hhidden⟩
      exact List.mem_map_of_mem hdropped
    · rw [answer, answer, keptCriteria_known hselected hstep]

/-- A search for pages of stories, with a misspelt name, under modes that hide the pages. -/
theorem answer_of_unknown_misspelt :
    let fields : List Json := [
      .object [("name", .string "Title"), ("type", .string "Text"), ("key", .string "title")],
      .object [("name", .string "Pages"), ("type", .string "Integer"), ("key", .string "pages"),
        ("modes", .string "essay")]]
    let document : Json := .object [("version", .string "1.0"), ("fields", .array fields),
      ("data", .array [.object [("title", .string "Dune")], .object [("title", .string "Emma")]])]
    let criteria : Members := [("Pages", .int 3), ("Titel", .string "Dune"), ("Title", .string "Emma")]
    ∃ warnings doc, ofJson "books" document = ⟨warnings, .ok doc⟩ ∧
      (∃ name ∈ Members.names criteria, ¬ doc.HasField name ∧
        doc.answer {} .and [] criteria = .error (.invalidQuery doc.name (.unknownField name))) ∧
      .hiddenCriteria doc.name "Titel" ∈ doc.droppingWarnings ["fiction"] criteria ∧
      doc.answer {} .and ["fiction"] criteria = doc.answer {} .and ["fiction"] (doc.known criteria) := by
  intro fields document criteria
  have hread : ∃ warnings doc, ofJson "books" document = ⟨warnings, .ok doc⟩ ∧
      Members.names doc.database.fields = ["Title", "Pages"] ∧
      (∃ query, doc.decodeCriteria {} "Pages" (.int 3) = .ok query) ∧
      ∃ query, doc.decodeCriteria {} "Title" (.string "Emma") = .ok query :=
    ⟨_, _, rfl, rfl, ⟨_, rfl⟩, _, rfl⟩
  obtain ⟨warnings, doc, haccepted, hnames, hpages, htitle⟩ := hread
  have hmisspelt : ¬ doc.HasField "Titel" := by
    rw [HasField, hnames]
    decide
  have hmem : ("Titel", Json.string "Dune") ∈ criteria := by
    simp [criteria]
  obtain ⟨_, hrefused, hselected⟩ := answer_of_unknown haccepted {} .and ⟨_, hmem, hmisspelt⟩
  obtain ⟨_, hwarned, hsame⟩ := hselected ["fiction"] (by simp)
  have hdecoded : ∀ entry ∈ criteria, doc.HasField entry.1 →
      ∃ query, doc.decodeCriteria {} entry.1 entry.2 = .ok query := by
    simp only [criteria, List.forall_mem_cons]
    exact ⟨fun _ => hpages, fun h => absurd h hmisspelt, fun _ => htitle, by simp⟩
  obtain ⟨entry, hentry, hname, hanswer⟩ := hrefused hdecoded
  exact ⟨warnings, doc, haccepted, ⟨entry.1, List.mem_map_of_mem hentry, hname, hanswer⟩,
    hwarned _ hmem hmisspelt, hsame⟩

/-- One criterion, with an unknown name: refused without selected modes, and passed over under them. -/
theorem answer_hides_unknown :
    let fields : List Json := [
      .object [("name", .string "Title"), ("type", .string "Text"), ("key", .string "title")],
      .object [("name", .string "Pages"), ("type", .string "Integer"), ("key", .string "pages"),
        ("modes", .string "essay")]]
    let document : Json := .object [("version", .string "1.0"), ("name", .string "books"), ("fields", .array fields),
      ("data", .array [.object [("title", .string "Dune"), ("pages", .int 612)]])]
    let criteria : Members := [("Nope", .int 1)]
    ∃ warnings doc, ofJson "a" document = ⟨warnings, .ok doc⟩ ∧ ¬ doc.HasField "Nope" ∧
      doc.answer {} .and [] criteria = .error (.invalidQuery "books" (.unknownField "Nope")) ∧
      doc.answer {} .and ["fiction"] criteria = .ok [0] ∧
      doc.droppingWarnings ["fiction"] criteria = [.hiddenCriteria "books" "Nope"] := by
  intro fields document criteria
  have hread : ∃ warnings doc, ofJson "a" document = ⟨warnings, .ok doc⟩ ∧
      Members.names doc.database.fields = ["Title", "Pages"] ∧
      doc.answer {} .and [] criteria = .error (.invalidQuery "books" (.unknownField "Nope")) ∧
      doc.answer {} .and ["fiction"] criteria = .ok [0] ∧
      doc.droppingWarnings ["fiction"] criteria = [.hiddenCriteria "books" "Nope"] :=
    ⟨_, _, rfl, rfl, rfl, rfl, rfl⟩
  obtain ⟨warnings, doc, haccepted, hnames, hrest⟩ := hread
  refine ⟨warnings, doc, haccepted, ?_, hrest⟩
  rw [HasField, hnames]
  decide

end Document
end RecordSearch
