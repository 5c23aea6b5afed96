import RecordSearch.Document.Layout
import RecordSearch.Proofs.Json.Parts
import RecordSearch.Proofs.Json.Shape

/-!
# Entries of fields

The fields of a document are listed in nested groups.  A walk through the groups builds the layout and collects the
entries; this module says what it has done when it comes to an end.

* `name_of_ofEntry`: a presentation takes its name from the entry.
* `rawEntries`: the objects in nested groups, depth first; `Outlines`: the layout that nested groups have.
* `Collected`: the layout outlines the items, their entries stand behind those collected before, and no name is taken
  twice.
* `collected_ofItems`: this holds of every walk that succeeds, by induction on the nesting of the groups.
-/

namespace RecordSearch

open Traversal

namespace Presentation

/-- Only the slot of the name writes the name. -/
theorem keeps_name (written : Option String) :
    ∀ slot ∈ shape.slots, slot.name ≠ "name" → slot.Keeps fun draft => draft.name = written := by
  simp only [shape, List.forall_mem_cons]
  refine ⟨fun h => absurd rfl h, fun _ => Slot.keeps_of _ ?_, fun _ => Slot.keeps_of _ ?_, fun _ => Slot.keeps_of _ ?_,
    fun _ => Slot.keeps_of _ ?_, fun _ => Slot.keeps_of _ ?_, by simp⟩ <;>
  exact fun _ _ _ _ h => h

/-- The name of a draft is the string under `name`. -/
theorem name_of_takeMembers {entry : Members} {draft : Draft} {name : String}
    (h : shape.takeMembers (settingsOf entry) {} = .ok draft) (hname : draft.name = some name) :
    Members.get? "name" entry = some (.string name) := by
  rcases Shape.takeMembers_pick "name" rfl (fun other hother hne written => keeps_name written other hother hne)
    (by decide) (by decide) h with ⟨-, hnone⟩ | ⟨value, before, after, hvalue, -, hassign, hafter⟩
  · rw [hname] at hnone
    cases hnone
  · obtain ⟨text, htext, rfl⟩ := (map_eq_ok_iff _ _ _).mp hassign
    obtain rfl := (Expect.text_eq_ok_iff _ _).mp htext
    rw [hname] at hafter
    rw [hvalue, Option.some.inj hafter]

theorem draft_of_ofEntry {entry definition : Members} {presentation : Presentation}
    (h : ofEntry entry = .ok (presentation, definition)) : definition = definitionOf entry ∧
      ∃ draft name, shape.takeMembers (settingsOf entry) {} = .ok draft ∧ draft.name = some name ∧
        presentation = { draft.presentation with name := name } := by
  rw [ofEntry] at h
  split at h
  · rename_i hsettings
    cases h
    obtain ⟨draft, hdraft, h⟩ := (bind_eq_ok_iff _ _ _).mp hsettings
    split at h
    · rename_i name hname
      cases h
      exact ⟨rfl, draft, name, hdraft, hname, rfl⟩
    · cases h
  · cases h

/-- An entry is split into a presentation under its name, and its definition. -/
theorem name_of_ofEntry {entry definition : Members} {presentation : Presentation}
    (h : ofEntry entry = .ok (presentation, definition)) :
    Members.get? "name" entry = some (.string presentation.name) ∧ definition = definitionOf entry := by
  obtain ⟨hdefinition, draft, name, hdraft, hname, rfl⟩ := draft_of_ofEntry h
  exact ⟨name_of_takeMembers hdraft hname, hdefinition⟩

end Presentation

namespace Layout

mutual

/-- The entry that a value is, or the entries in a group. -/
def rawEntriesOf : Json → List Members
  | .array items => rawEntries items
  | .object members => [members]
  | _ => []

/-- The entries in nested groups, depth first. -/
def rawEntries : List Json → List Members
  | [] => []
  | value :: rest => rawEntriesOf value ++ rawEntries rest

end

theorem rawEntries_append (first second : List Json) :
    rawEntries (first ++ second) = rawEntries first ++ rawEntries second := by
  induction first with
  | nil =>
      rfl
  | cons value rest ih =>
      rw [List.cons_append, rawEntries, rawEntries, ih, List.append_assoc]

/-- The layouts have the shape of the items: a group for an array, the name for an object, nothing for another value. -/
inductive Outlines : List Json → List Layout → Prop
  | nil : Outlines [] []
  | group {inner rest : List Json} {items layouts : List Layout}
      (hinner : Outlines inner items) (hrest : Outlines rest layouts) :
      Outlines (.array inner :: rest) (.group items :: layouts)
  | field {entry : Members} {name : String} {rest : List Json} {layouts : List Layout}
      (hname : Members.get? "name" entry = some (.string name)) (hrest : Outlines rest layouts) :
      Outlines (.object entry :: rest) (.field name :: layouts)
  | ignored {value : Json} {rest : List Json} {layouts : List Layout}
      (hleaf : value.isLeaf = true) (hrest : Outlines rest layouts) :
      Outlines (value :: rest) layouts

theorem outlines_append {first second : List Json} {layouts layouts' : List Layout} (h : Outlines first layouts)
    (h' : Outlines second layouts') : Outlines (first ++ second) (layouts ++ layouts') := by
  induction h with
  | nil => exact h'
  | group hinner _ _ ih => exact Outlines.group hinner ih
  | field hname _ ih => exact Outlines.field hname ih
  | ignored hleaf _ ih => exact Outlines.ignored hleaf ih

/-- The names in a layout are those of the entries. -/
theorem namesOf_of_outlines {items : List Json} {layouts : List Layout} (h : Outlines items layouts) :
    (rawEntries items).map (Members.get? "name") = (namesOf layouts).map fun name => some (.string name) := by
  induction h with
  | nil =>
      rfl
  | group _ _ ihinner ih =>
      rw [rawEntries, rawEntriesOf, namesOf, names, List.map_append, List.map_append, ihinner, ih]
  | field hname _ ih =>
      rw [rawEntries, rawEntriesOf, namesOf, names, List.map_append, List.map_append, ih, List.map_singleton, hname]
      rfl
  | @ignored value rest layouts hleaf _ ih =>
      have hnone : rawEntriesOf value = [] := by
        cases value with
        | array items => cases hleaf
        | object members => cases hleaf
        | _ => rfl
      rw [rawEntries, hnone, List.nil_append, ih]

/-- The names of the entries collected. -/
def entryNames (entries : Entries) : List String :=
  entries.map (·.presentation.name)

theorem collect_eq_ok_iff (entry : FieldEntry) (before after : Entries) :
    collect entry before = .ok after ↔
      entry.presentation.name ∉ entryNames before ∧ after = before ++ [entry] := by
  have htaken : (before.any (·.presentation.name == entry.presentation.name)) = true ↔
      entry.presentation.name ∈ entryNames before := by
    simp [entryNames]
  rw [collect]
  split
  · rename_i h
    simp [htaken.mp h]
  · rename_i h
    rw [htaken] at h
    simp [h, eq_comm]

/-- The entry is what an object among the fields says. -/
def Describes (raw : Members) (entry : FieldEntry) : Prop :=
  Presentation.ofEntry raw = .ok (entry.presentation, entry.definition)

/-- A walk through the items has outlined them and collected their entries. -/
structure Collected (before : Entries) (items : List Json) (layouts : List Layout) (after : Entries) : Prop where
  outlines : Outlines items layouts
  entries : ∃ own, after = before ++ own ∧ List.Forall₂ Describes (rawEntries items) own
  nodup : (entryNames before).Nodup → (entryNames after).Nodup

theorem collected_nil (entries : Entries) : Collected entries [] [] entries :=
  ⟨Outlines.nil, ⟨[], (List.append_nil _).symm, List.Forall₂.nil⟩, id⟩

theorem collected_append {before between after : Entries} {first second : List Json} {layouts layouts' : List Layout}
    (h : Collected before first layouts between) (h' : Collected between second layouts' after) :
    Collected before (first ++ second) (layouts ++ layouts') after := by
  obtain ⟨own, rfl, hown⟩ := h.entries
  obtain ⟨own', rfl, hown'⟩ := h'.entries
  refine ⟨outlines_append h.outlines h'.outlines, ⟨own ++ own', List.append_assoc _ _ _, ?_⟩, h'.nodup ∘ h.nodup⟩
  rw [rawEntries_append]
  exact List.rel_append hown hown'

theorem collected_group {before after : Entries} {items : List Json} {layouts : List Layout}
    (h : Collected before items layouts after) : Collected before [.array items] [.group layouts] after := by
  obtain ⟨own, rfl, hown⟩ := h.entries
  refine ⟨Outlines.group h.outlines Outlines.nil, ⟨own, rfl, ?_⟩, h.nodup⟩
  rwa [rawEntries, rawEntriesOf, rawEntries, List.append_nil]

theorem collected_field {before after : Entries} {raw definition : Members} {presentation : Presentation}
    (hsplit : Presentation.ofEntry raw = .ok (presentation, definition))
    (h : collect ⟨presentation, definition⟩ before = .ok after) :
    Collected before [.object raw] [.field presentation.name] after := by
  obtain ⟨hnew, rfl⟩ := (collect_eq_ok_iff _ _ _).mp h
  refine ⟨Outlines.field (Presentation.name_of_ofEntry hsplit).1 Outlines.nil, ⟨_, rfl, ?_⟩, fun hnodup => ?_⟩
  · exact List.Forall₂.cons hsplit List.Forall₂.nil
  · rw [entryNames, List.map_append]
    refine List.nodup_append.mpr ⟨hnodup, List.nodup_singleton _, ?_⟩
    intro name hname other hother hsame
    rw [hsame, List.mem_singleton.mp hother] at hname
    exact hnew hname

theorem collected_ignored {value : Json} (hleaf : value.isLeaf = true) (entries : Entries) :
    Collected entries [value] [] entries := by
  refine ⟨Outlines.ignored hleaf Outlines.nil, ⟨[], (List.append_nil _).symm, ?_⟩, id⟩
  cases value with
  | array items => cases hleaf
  | object members => cases hleaf
  | _ => exact List.Forall₂.nil

/-- A walk through the value that succeeds has collected what is in it. -/
def Collects (value : Json) : Prop :=
  ∀ before warnings layout after, ofJson before value = ⟨warnings, .ok (layout, after)⟩ →
    Collected before [value] layout.toList after

theorem collected_of_collects {items : List Json} (h : ∀ value ∈ items, Collects value) {before after : Entries}
    {warnings : List Warning} {layouts : List Layout} (hwalk : ofItems before items = ⟨warnings, .ok (layouts, after)⟩) :
    Collected before items layouts after := by
  induction items generalizing before warnings layouts with
  | nil =>
      obtain ⟨_, hsame⟩ := (Decoding.pure_eq_ok_iff _ _ _).mp hwalk
      cases hsame
      exact collected_nil _
  | cons value rest ih =>
      obtain ⟨hvalue, hrest⟩ := List.forall_mem_cons.mp h
      rw [ofItems] at hwalk
      obtain ⟨⟨first, between⟩, _, _, hfirst, hwalk, _⟩ := (Decoding.bind_eq_ok_iff _ _ _ _).mp hwalk
      obtain ⟨⟨others, _⟩, hothers, hsame⟩ := (Decoding.bind_pure_eq_ok_iff _ _ _ _).mp hwalk
      cases hsame
      exact collected_append (hvalue _ _ _ _ hfirst) (ih hrest hothers)

theorem collects (value : Json) : Collects value := by
  induction value using Json.induction_on_children with
  | leaf value hleaf =>
      intro before warnings layout after h
      have hskip : ofJson before value = (Decoding.warn [.ignoredEntry value] >>= fun _ => pure (none, before)) := by
        cases value with
        | array items => cases hleaf
        | object members => cases hleaf
        | _ => rfl
      rw [hskip, Decoding.bind_pure_eq_ok_iff] at h
      obtain ⟨_, _, hsame⟩ := h
      cases hsame
      exact collected_ignored hleaf before
  | array items ih =>
      intro before warnings layout after h
      rw [ofJson] at h
      obtain ⟨⟨inner, _⟩, hinner, hsame⟩ := (Decoding.bind_pure_eq_ok_iff _ _ _ _).mp h
      cases hsame
      exact collected_group (collected_of_collects ih hinner)
  | object raw _ =>
      intro before warnings layout after h
      rw [ofJson] at h
      obtain ⟨⟨presentation, definition⟩, hsplit, h⟩ := (Decoding.lift_bind_eq_ok_iff _ _ _ _).mp h
      obtain ⟨_, hcollect, h⟩ := (Decoding.lift_bind_eq_ok_iff _ _ _ _).mp h
      obtain ⟨_, hsame⟩ := (Decoding.pure_eq_ok_iff _ _ _).mp h
      cases hsame
      exact collected_field hsplit hcollect

/-- A walk through the items that succeeds has outlined them and collected their entries. -/
theorem collected_ofItems {before after : Entries} {items : List Json} {warnings : List Warning}
    {layouts : List Layout} (h : ofItems before items = ⟨warnings, .ok (layouts, after)⟩) :
    Collected before items layouts after :=
  collected_of_collects (fun value _ => collects value) h

end Layout
end RecordSearch
