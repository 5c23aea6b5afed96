import RecordSearch.Proofs.Document.Entries
import RecordSearch.Proofs.Document.Loading
import RecordSearch.Proofs.Repetition

/-!
# Layout, presentations and fields in step

A document keeps the names of its fields in three places: in the layout, with the presentations and with the fields of
the database.

* `InStep`: the three are one sequence of names without repetition, and the modes are those of the presentations.
* `inStep_of_reads`: this holds of every document that is accepted.
* `ofJson_inStep`: together with the shape of the layout, and the refusal of entries of one name.
-/

namespace RecordSearch
namespace Document

open Layout Repetition Traversal

/-- The layout, the presentations and the fields name the same fields in the same order, each once. -/
structure InStep (doc : Document) : Prop where
  presentations : Members.names doc.presentations = namesOf doc.layout
  fields : Members.names doc.database.fields = namesOf doc.layout
  nodup : (namesOf doc.layout).Nodup
  name : ∀ entry ∈ doc.presentations, entry.2.name = entry.1
  modes : FirstAppearances (doc.presentations.flatMap fun entry => entry.2.modes.getD []) doc.modes

/-- Fields are made under the names of their entries. -/
theorem names_of_fieldsOf {records : List Json} {entries : Entries} {fields : List (String × Field)}
    (h : fieldsOf records entries = .ok fields) : Members.names fields = entryNames entries :=
  keys_of_mapM_keyed h

/-- The names of entries are those that they describe. -/
theorem map_name_of_describes {raw : List Members} {entries : Entries} (h : List.Forall₂ Describes raw entries) :
    raw.map (Members.get? "name") = (entryNames entries).map fun name => some (.string name) := by
  induction h with
  | nil =>
      rfl
  | @cons first entry raw entries hfirst _ ih =>
      rw [List.map_cons, (Presentation.name_of_ofEntry hfirst).1, ih, entryNames, entryNames, List.map_cons,
        List.map_cons]

/-- A name is told from its written form. -/
theorem written_injective : Function.Injective fun name : String => some (Json.string name) := by
  intro name name' h
  exact Json.string.inj (Option.some.inj h)

/-- The layout that a walk from the start gives has the names of the entries collected. -/
theorem namesOf_eq_entryNames {items : List Json} {layouts : List Layout} {entries : Entries}
    (h : Collected [] items layouts entries) : namesOf layouts = entryNames entries := by
  obtain ⟨own, rfl, hown⟩ := h.entries
  have hnames := (namesOf_of_outlines h.outlines).symm.trans (map_name_of_describes hown)
  exact List.map_injective_iff.mpr written_injective hnames

theorem inStep_of_reads {fallback : String} {members : Members} {warnings : List Warning} {doc : Document}
    (h : Reads fallback members warnings doc) : doc.InStep := by
  cases h with
  | @intro _ _ _ _ _ layout entries fields _ _ _ _ _ _ _ _ _ hlayout hfields _ =>
      have hcollected := collected_ofItems hlayout
      have hnames := namesOf_eq_entryNames hcollected
      refine ⟨?_, ?_, ?_, ?_, ?_⟩
      · rw [hnames, Members.names, List.map_map]
        rfl
      · rw [hnames, names_of_fieldsOf hfields]
      · rw [hnames]
        exact hcollected.nodup List.nodup_nil
      · rw [List.forall_mem_map]
        exact fun entry _ => rfl
      · rw [List.flatMap_map]
        exact firstAppearances_eraseDups _

theorem outlines_of_reads {fallback : String} {members : Members} {warnings : List Warning} {doc : Document}
    (h : Reads fallback members warnings doc) :
    ∃ items, Members.get? "fields" members = some (.array items) ∧ Outlines items doc.layout := by
  cases h with
  | intro _ _ hitems _ _ hlayout _ _ => exact ⟨_, hitems, (collected_ofItems hlayout).outlines⟩

/-- The entries of a document that is accepted have different names. -/
theorem pairwise_name_of_reads {fallback : String} {members : Members} {warnings : List Warning} {doc : Document}
    (h : Reads fallback members warnings doc) {items : List Json}
    (hitems : Members.get? "fields" members = some (.array items)) :
    (rawEntries items).Pairwise fun raw raw' => Members.get? "name" raw ≠ Members.get? "name" raw' := by
  obtain ⟨written, hwritten, houtlines⟩ := outlines_of_reads h
  obtain rfl : written = items := Json.array.inj (Option.some.inj (hwritten.symm.trans hitems))
  have hnodup : ((rawEntries written).map (Members.get? "name")).Nodup := by
    rw [namesOf_of_outlines houtlines]
    exact (inStep_of_reads h).nodup.map written_injective
  exact List.pairwise_map.mp hnodup

/-- **Layout, presentations and fields stay in step.**  In a document that is accepted they name the same fields in the
same order, each once; the layout has the shape of the list of fields; and the modes are those of the presentations.
Two entries of one name, wherever they stand in the list, are never accepted. -/
theorem ofJson_inStep (fallback : String) (value : Json) :
    (∀ warnings doc, ofJson fallback value = ⟨warnings, .ok doc⟩ →
      doc.InStep ∧ ∃ members items, value = .object members ∧
        Members.get? "fields" members = some (.array items) ∧ Outlines items doc.layout) ∧
    (∀ members items raw raw' name, value = .object members →
      Members.get? "fields" members = some (.array items) → [raw, raw'].Sublist (rawEntries items) →
      Members.get? "name" raw = some (.string name) → Members.get? "name" raw' = some (.string name) →
      ∃ e, (ofJson fallback value).result = .error e) := by
  constructor
  · intro warnings doc h
    obtain ⟨members, rfl, hreads⟩ := (ofJson_eq_ok_iff _ _ _ _).mp h
    obtain ⟨items, hitems, houtlines⟩ := outlines_of_reads hreads
    exact ⟨inStep_of_reads hreads, members, items, rfl, hitems, houtlines⟩
  · rintro members items raw raw' name rfl hitems hsub hraw hraw'
    cases hresult : (ofJson fallback (.object members)).result with
    | error e => exact ⟨e, rfl⟩
    | ok doc =>
        have haccepted : ofJson fallback (.object members) =
            ⟨(ofJson fallback (.object members)).warnings, .ok doc⟩ := by
          rw [← hresult]
        obtain ⟨_, hsame, hreads⟩ := (ofJson_eq_ok_iff _ _ _ _).mp haccepted
        cases hsame
        have hne := List.pairwise_pair.mp ((pairwise_name_of_reads hreads hitems).sublist hsub)
        exact absurd (hraw.trans hraw'.symm) hne

/-- Fields in nested groups with an entry that is none, and the same fields with one name written twice. -/
theorem ofJson_inStep_groups :
    let title : Members := [("type", .string "Text"), ("name", .string "Title"), ("key", .string "title"),
      ("modes", .array [.string "essay", .string "fiction", .string "essay"])]
    let pages : Members := [("name", .string "Pages"), ("type", .string "Integer"), ("key", .string "pages"),
      ("modes", .string "fiction")]
    let items : List Json := [.array [.object title, .array [.null]], .object pages]
    let document (items : List Json) : Json :=
      .object [("version", .string "1.0"), ("fields", .array items), ("data", .array [])]
    let twice : List Json := .array [.object pages] :: items
    (∃ warnings doc, ofJson "books" (document items) = ⟨warnings, .ok doc⟩ ∧ doc.InStep ∧
      doc.layout = [.group [.field "Title", .group []], .field "Pages"] ∧ doc.modes = ["essay", "fiction"]) ∧
    ∃ e, (ofJson "books" (document twice)).result = .error e := by
  intro title pages items document twice
  constructor
  · have hread : ∃ warnings doc, ofJson "books" (document items) = ⟨warnings, .ok doc⟩ ∧
        doc.layout = [.group [.field "Title", .group []], .field "Pages"] ∧ doc.modes = ["essay", "fiction"] :=
      ⟨_, _, rfl, rfl, rfl⟩
    obtain ⟨warnings, doc, hread, hlayout, hmodes⟩ := hread
    exact ⟨warnings, doc, hread, ((ofJson_inStep "books" _).1 warnings doc hread).1, hlayout, hmodes⟩
  · have hsub : [pages, pages].Sublist (rawEntries twice) :=
      (List.cons_sublist_cons.mpr (List.sublist_append_right [title] [pages]))
    exact (ofJson_inStep "books" _).2 _ twice pages pages "Pages" rfl rfl hsub rfl rfl

end Document
end RecordSearch
