import RecordSearch.Proofs.Document.Description

/-!
# Modes

The modes of a document are gathered from its fields when it is loaded; which fields a selection of modes shows is
decided for each field on its own.

* `modes_of_ofEntry`: the modes of a presentation are those that its entry writes.
* `isVisible_iff`: a field with modes needs a selected one among them; `isVisible_union`, `isVisible_inter`.
* `InStep.mem_modes_iff`: the modes of a document are those of its presentations.
* `visibleFields_modes`: the two agree, so that the modes of a document are neither too few nor too many.
-/

namespace RecordSearch

open Traversal

namespace Expect

theorem itemsFrom_eq_nil_iff {α : Type} (item : Json → Except Fault α) (index : Nat) (items : List Json) :
    itemsFrom item index items = .ok [] ↔ items = [] := by
  cases items with
  | nil =>
      exact ⟨fun _ => rfl, fun _ => rfl⟩
  | cons v rest =>
      refine ⟨fun h => ?_, nofun⟩
      rw [itemsFrom] at h
      obtain ⟨first, _, h⟩ := (bind_eq_ok_iff _ _ _).mp h
      obtain ⟨others, _, h⟩ := (bind_eq_ok_iff _ _ _).mp h
      cases h

/-- No modes are written by the empty array alone. -/
theorem modes_eq_nil_iff (value : Json) : modes value = .ok [] ↔ value = .array [] := by
  cases value with
  | array items =>
      have hlist : list text (.array items) = itemsFrom text 0 items := rfl
      rw [modes, hlist, Json.array.injEq, ← itemsFrom_eq_nil_iff text 0 items]
      cases hwritten : itemsFrom text 0 items with
      | error fault =>
          simp
      | ok written =>
          cases written with
          | nil => simp
          | cons mode rest => simp [List.eraseDups_cons]
      exact fun _ => nofun
  | _ => simp [modes, list, wrong]

end Expect

namespace Presentation

/-- The modes that an entry writes, if it writes any. -/
def writtenModes (entry : Members) : Except Fault (Option (List String)) :=
  match Members.get? "modes" entry with
  | none => .ok none
  | some value => Expect.optional Expect.modes value

/-- Only the slot of the modes writes the modes. -/
theorem keeps_modes (written : Option (List String)) :
    ∀ slot ∈ shape.slots, slot.name ≠ "modes" → slot.Keeps fun draft => draft.presentation.modes = written := by
  simp only [shape, List.forall_mem_cons]
  refine ⟨fun _ => Slot.keeps_of _ ?_, fun _ => Slot.keeps_of _ ?_, fun _ => Slot.keeps_of _ ?_,
    fun _ => Slot.keeps_of _ ?_, fun _ => Slot.keeps_of _ ?_, fun h => absurd rfl h, by simp⟩ <;>
  exact fun _ _ _ _ h => h

theorem modes_of_takeMembers {entry : Members} {draft : Draft}
    (h : shape.takeMembers (settingsOf entry) {} = .ok draft) : writtenModes entry = .ok draft.presentation.modes := by
  rw [writtenModes]
  rcases Shape.takeMembers_pick "modes" rfl (fun other hother hne written => keeps_modes written other hother hne)
    (by decide) (by decide) h with ⟨habsent, hnone⟩ | ⟨value, before, after, hvalue, -, hassign, hafter⟩
  · rw [habsent, hnone]
  · obtain ⟨modes, hmodes, rfl⟩ := (map_eq_ok_iff _ _ _).mp hassign
    rw [hvalue, hafter]
    exact hmodes

/-- The modes of a presentation are those that its entry writes. -/
theorem modes_of_ofEntry {entry definition : Members} {presentation : Presentation}
    (h : ofEntry entry = .ok (presentation, definition)) : writtenModes entry = .ok presentation.modes := by
  obtain ⟨-, draft, name, hdraft, -, rfl⟩ := draft_of_ofEntry h
  exact modes_of_takeMembers hdraft

/-- An entry has an empty list of modes exactly if it writes one. -/
theorem writtenModes_eq_empty_iff (entry : Members) :
    writtenModes entry = .ok (some []) ↔ Members.get? "modes" entry = some (.array []) := by
  rw [writtenModes]
  cases Members.get? "modes" entry with
  | none => simp
  | some value =>
      rw [Option.some.injEq, ← Expect.modes_eq_nil_iff]
      dsimp only
      cases value with
      | null => simp [Expect.optional, Expect.modes, Expect.list, Expect.wrong]
      | _ => simp [Expect.optional, map_eq_ok_iff]

end Presentation

namespace Document

open Layout Repetition

/-- An object among the fields is declared under its name, with the modes that it writes. -/
def DeclaredBy (raw : Members) (entry : String × Presentation) : Prop :=
  Members.get? "name" raw = some (.string entry.1) ∧ Presentation.writtenModes raw = .ok entry.2.modes

theorem declares_of_reads {fallback : String} {members : Members} {warnings : List Warning} {doc : Document}
    (h : Reads fallback members warnings doc) :
    ∃ items, Members.get? "fields" members = some (.array items) ∧
      List.Forall₂ DeclaredBy (rawEntries items) doc.presentations := by
  cases h with
  | @intro _ _ items _ _ _ entries _ _ _ _ _ _ _ hitems _ _ hlayout _ _ =>
      obtain ⟨own, hown, hdescribed⟩ := (collected_ofItems hlayout).entries
      obtain rfl : entries = own := hown
      refine ⟨items, hitems, List.forall₂_map_right_iff.mpr (hdescribed.imp fun raw entry hraw => ?_)⟩
      exact ⟨(Presentation.name_of_ofEntry hraw).1, Presentation.modes_of_ofEntry hraw⟩

/-- A field is visible if it has no modes, or a selected one among them. -/
theorem isVisible_iff (selected : List String) (p : Presentation) :
    isVisible selected p = true ↔ p.modes = none ∨ ∃ modes, p.modes = some modes ∧ ∃ mode ∈ modes, mode ∈ selected := by
  rw [isVisible]
  cases p.modes with
  | none => simp
  | some modes => simp

/-- Only the set of selected modes counts. -/
theorem isVisible_congr {selected other : List String} (hsame : ∀ mode, mode ∈ selected ↔ mode ∈ other)
    (p : Presentation) : isVisible selected p = isVisible other p := by
  rw [Bool.eq_iff_iff, isVisible_iff, isVisible_iff]
  simp only [hsame]

theorem isVisible_union (selected other : List String) (p : Presentation) :
    isVisible (selected ∪ other) p = true ↔ isVisible selected p = true ∨ isVisible other p = true := by
  simp only [isVisible_iff, List.mem_union_iff]
  cases p.modes with
  | none => simp
  | some modes => simp [and_or_left, exists_or]

/-- Modes that no field has may be left out of a selection. -/
theorem isVisible_inter (selected : List String) {known : List String} {p : Presentation}
    (hknown : ∀ modes, p.modes = some modes → ∀ mode ∈ modes, mode ∈ known) :
    isVisible (selected ∩ known) p = isVisible selected p := by
  rw [Bool.eq_iff_iff, isVisible_iff, isVisible_iff]
  refine or_congr_right (exists_congr fun modes => and_congr_right fun hmodes => ?_)
  refine exists_congr fun mode => and_congr_right fun hmode => ?_
  rw [List.mem_inter_iff, and_iff_left (hknown modes hmodes mode hmode)]

variable {doc : Document}

theorem visibleFields_congr {selected other : List String}
    (hsame : ∀ entry ∈ doc.presentations, isVisible selected entry.2 = isVisible other entry.2) :
    doc.visibleFields selected = doc.visibleFields other := by
  rw [visibleFields, visibleFields]
  exact congrArg _ (List.filter_congr hsame)

namespace InStep

variable (h : doc.InStep)
include h

/-- The modes of a document are those of its presentations. -/
theorem mem_modes_iff (mode : String) :
    mode ∈ doc.modes ↔ ∃ entry ∈ doc.presentations, ∃ modes, entry.2.modes = some modes ∧ mode ∈ modes := by
  rw [h.modes.mem_iff, List.mem_flatMap]
  refine exists_congr fun entry => and_congr_right fun _ => ?_
  cases entry.2.modes with
  | none => simp
  | some modes => simp

theorem visibleFields_sublist (selected : List String) : (doc.visibleFields selected).Sublist (namesOf doc.layout) := by
  rw [← h.presentations]
  exact List.filter_sublist.map _

theorem visibleFields_union (selected other : List String) :
    doc.visibleFields (selected ∪ other) =
      (namesOf doc.layout).filter fun name => name ∈ doc.visibleFields selected ∨ name ∈ doc.visibleFields other := by
  rw [← h.presentations, Members.names, List.filter_map, visibleFields]
  refine congrArg _ (List.filter_congr fun entry hentry => ?_)
  rw [Bool.eq_iff_iff, isVisible_union, Function.comp_apply, decide_eq_true_iff,
    h.mem_visibleFields_iff selected hentry, h.mem_visibleFields_iff other hentry]

theorem visibleFields_inter (selected : List String) :
    doc.visibleFields (selected ∩ doc.modes) = doc.visibleFields selected := by
  refine visibleFields_congr fun entry hentry => isVisible_inter selected fun modes hmodes mode hmode => ?_
  exact (h.mem_modes_iff mode).mpr ⟨entry, hentry, modes, hmodes, hmode⟩

/-- Every mode of a document shows a field that no selection leaves hidden. -/
theorem exists_revealed {mode : String} (hmode : mode ∈ doc.modes) :
    ∃ name ∈ doc.visibleFields [mode], name ∉ doc.visibleFields [] := by
  obtain ⟨entry, hentry, modes, hmodes, hin⟩ := (h.mem_modes_iff mode).mp hmode
  refine ⟨entry.1, ?_, ?_⟩
  · rw [h.mem_visibleFields_iff [mode] hentry, isVisible_iff]
    exact Or.inr ⟨modes, hmodes, mode, hin, List.mem_singleton_self mode⟩
  · rw [h.mem_visibleFields_iff [] hentry, isVisible_iff]
    simp [hmodes]

/-- All modes of a document together hide the fields that have an empty list of modes. -/
theorem mem_visibleFields_modes_iff {entry : String × Presentation} (hentry : entry ∈ doc.presentations) :
    entry.1 ∈ doc.visibleFields doc.modes ↔ entry.2.modes ≠ some [] := by
  rw [h.mem_visibleFields_iff doc.modes hentry, isVisible_iff]
  cases hmodes : entry.2.modes with
  | none => simp
  | some modes =>
      have hknown : ∀ mode ∈ modes, mode ∈ doc.modes := fun mode hmode =>
        (h.mem_modes_iff mode).mpr ⟨entry, hentry, modes, hmodes, hmode⟩
      cases modes with
      | nil => simp
      | cons mode rest => simpa using Or.inl (hknown mode List.mem_cons_self)

end InStep

/-- **The modes of a document are those that matter to its fields.**  In a document that is accepted, a selection of
modes shows fields in the order in which they are declared, and only the set of selected modes counts; a union of
selections shows what either shows; modes that the document does not have may be left out; each mode that it has shows
a field that is hidden without modes; and all of them together show every field but those declared with an empty list
of modes. -/
theorem visibleFields_modes {fallback : String} {value : Json} {warnings : List Warning}
    (haccepted : ofJson fallback value = ⟨warnings, .ok doc⟩) :
    ∃ members items names, value = .object members ∧ Members.get? "fields" members = some (.array items) ∧
      List.Forall₂ (fun raw name => Members.get? "name" raw = some (.string name) ∧
        (name ∈ doc.visibleFields doc.modes ↔ Members.get? "modes" raw ≠ some (.array []))) (rawEntries items) names ∧
      (∀ selected, (doc.visibleFields selected).Sublist names) ∧
      (∀ selected other, (∀ mode, mode ∈ selected ↔ mode ∈ other) →
        doc.visibleFields selected = doc.visibleFields other) ∧
      (∀ selected other, doc.visibleFields (selected ∪ other) =
        names.filter fun name => name ∈ doc.visibleFields selected ∨ name ∈ doc.visibleFields other) ∧
      (∀ selected, doc.visibleFields selected = doc.visibleFields (selected ∩ doc.modes)) ∧
      ∀ mode ∈ doc.modes, ∃ name ∈ doc.visibleFields [mode], name ∉ doc.visibleFields [] := by
  obtain ⟨members, rfl, hreads⟩ := (ofJson_eq_ok_iff _ _ _ _).mp haccepted
  have h := inStep_of_reads hreads
  obtain ⟨items, hitems, hdeclared⟩ := declares_of_reads hreads
  refine ⟨members, items, namesOf doc.layout, rfl, hitems, ?declared, h.visibleFields_sublist, ?set,
    h.visibleFields_union, fun selected => (h.visibleFields_inter selected).symm, fun mode => h.exists_revealed⟩
  case declared =>
    rw [← h.presentations, Members.names, List.forall₂_map_right_iff]
    refine List.forall₂_iff_zip.mpr ⟨hdeclared.length_eq, fun {raw entry} hpair => ?_⟩
    obtain ⟨hname, hmodes⟩ := List.forall₂_zip hdeclared hpair
    refine ⟨hname, ?_⟩
    rw [h.mem_visibleFields_modes_iff (List.of_mem_zip hpair).2, ne_eq, ne_eq,
      ← Presentation.writtenModes_eq_empty_iff, hmodes, Except.ok.injEq]
  case set =>
    exact fun selected other hsame => visibleFields_congr fun entry _ => isVisible_congr hsame entry.2

/-- One mode, a list with a repetition, an empty list, and no modes. -/
theorem visibleFields_modes_tags :
    let title : Json := .object [("name", .string "Title"), ("type", .string "Text"), ("key", .string "title"),
      ("modes", .null)]
    let genre : Json := .object [("name", .string "Genre"), ("type", .string "Text"), ("key", .string "genre"),
      ("modes", .string "fiction")]
    let pages : Json := .object [("name", .string "Pages"), ("type", .string "Integer"), ("key", .string "pages"),
      ("modes", .array [.string "essay", .string "fiction", .string "essay"])]
    let draft : Json := .object [("name", .string "Draft"), ("type", .string "Text"), ("key", .string "draft"),
      ("modes", .array [])]
    let document : Json := .object [("version", .string "1.0"),
      ("fields", .array [.array [pages, .array [draft]], genre, title]), ("data", .array [])]
    ∃ warnings doc, ofJson "books" document = ⟨warnings, .ok doc⟩ ∧ doc.modes = ["essay", "fiction"] ∧
      doc.visibleFields doc.modes = ["Pages", "Genre", "Title"] ∧
      doc.visibleFields ["poem", "essay"] = doc.visibleFields (["poem", "essay"] ∩ doc.modes) ∧
      (∃ name ∈ doc.visibleFields ["fiction"], name ∉ doc.visibleFields []) ∧
      ∃ names, (doc.visibleFields ["essay"]).Sublist names ∧
        doc.visibleFields (["poem"] ∪ ["essay"]) =
          names.filter fun name => name ∈ doc.visibleFields ["poem"] ∨ name ∈ doc.visibleFields ["essay"] := by
  intro title genre pages draft document
  have hread : ∃ warnings doc, ofJson "books" document = ⟨warnings, .ok doc⟩ ∧ doc.modes = ["essay", "fiction"] ∧
      doc.visibleFields doc.modes = ["Pages", "Genre", "Title"] :=
    ⟨_, _, rfl, rfl, rfl⟩
  obtain ⟨warnings, doc, haccepted, hmodes, hvisible⟩ := hread
  obtain ⟨_, _, names, _, _, _, hsub, _, hunion, hinter, hrevealed⟩ := visibleFields_modes haccepted
  have hfiction : "fiction" ∈ doc.modes := by
    rw [hmodes]
    decide
  exact ⟨warnings, doc, haccepted, hmodes, hvisible, hinter ["poem", "essay"], hrevealed "fiction" hfiction, names,
    hsub ["essay"], hunion ["poem"] ["essay"]⟩

end Document
end RecordSearch
