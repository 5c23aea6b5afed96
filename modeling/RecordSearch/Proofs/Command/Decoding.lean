import RecordSearch.Command.QueryFile
import RecordSearch.Proofs.Preferences

/-!
# Texts that are decoded

Values, inline criteria, query files and preferences are all decoded by a reader that stops behind the first value.

* `Json.starts_unique`, `Json.spells_item_iff`: a text begins with one value only, and is no more than this value if
  only blanks are left.
* `Expect.fromText_eq_ok_iff`, `QueryFile.probed_slots`: decoders of a text, of which the front decides.
* `decoders_read_front`: what each decoder accepts, with anything behind it.
-/

namespace RecordSearch

open Source Traversal

namespace Json

theorem starts_unique {levels : Nat} {source rest rest' : Source} {v v' : Json} (h : Starts levels source v rest)
    (h' : Starts levels source v' rest') : v = v' ∧ rest = rest' := by
  rw [← read_eq_ok_iff] at h h'
  rw [h] at h'
  cases h'
  exact ⟨rfl, rfl⟩

/-- A text that begins with a value is this value between blanks if nothing else is left. -/
theorem spells_item_iff {levels : Nat} {source rest : Source} {v : Json} (h : Starts levels source v rest) :
    (∃ w, Spells levels source (.item w)) ↔ Blank rest := by
  constructor
  · rintro ⟨w, hitem⟩
    obtain ⟨after, hafter, hstarts⟩ := starts_of_item hitem
    have hwhole := hstarts [] follows_nil
    rw [List.append_nil, List.append_nil] at hwhole
    obtain ⟨-, rfl⟩ := starts_unique h hwhole
    exact hafter
  · intro hblank
    obtain ⟨text, rfl, hitem⟩ := item_of_starts h
    exact ⟨v, hitem rest hblank⟩

end Json

theorem Expect.fromText_eq_ok_iff {α : Type} {expect : Json → Except Fault α} (hprobed : Probed expect) (text : String)
    (a : α) : fromText expect text = .ok a ↔
      ∃ v rest, Json.Starts Json.nestingLimit (Source.ofText text) v rest ∧ expect v = .ok a := by
  constructor
  · intro h
    rw [fromText] at h
    split at h
    · cases h
    · rename_i v rest hread
      exact ⟨v, rest, Reader.starts_of_readFor hread, (mapError_eq_ok_iff _ _ _).mp h⟩
  · rintro ⟨v, rest, hstarts, ha⟩
    rw [fromText, Reader.readFor_of_starts hprobed hstarts ha]
    exact (mapError_eq_ok_iff _ _ _).mpr ha

theorem Expect.members_eq_ok_iff (v : Json) (ms : Members) : members v = .ok ms ↔ v = .object ms := by
  cases v <;> simp [members, wrong]

theorem QueryFile.probed_slots : ∀ slot ∈ shape.slots, slot.Probed := by
  simp only [shape, List.forall_mem_cons]
  exact ⟨Slot.probed_of _ _ (Expect.probed_optional Expect.probed_operator), Slot.probed_of _ _ Expect.probed_members,
    nofun⟩

/-- A value, criteria, a query or preferences are decoded from a text exactly if the text begins with a value that
means them, whatever is left behind this value; the text as a whole is the value between blanks exactly if only blanks
are left. -/
theorem decoders_read_front (text : String) :
    (∀ v, Json.ofText text = .ok v ↔ ∃ rest, Json.Starts Json.nestingLimit (Source.ofText text) v rest) ∧
    (∀ ms, Expect.fromText Expect.members text = .ok ms ↔
      ∃ rest, Json.Starts Json.nestingLimit (Source.ofText text) (.object ms) rest) ∧
    (∀ query, QueryFile.ofText text = .ok query ↔ ∃ rest, QueryFile.shape.Starts {} (Source.ofText text) query rest) ∧
    (∀ prefs, Preferences.ofText text = .ok prefs ↔
      ∃ rest, Preferences.shape.Starts .standard (Source.ofText text) prefs rest) ∧
    ∀ levels v rest, Json.Starts levels (Source.ofText text) v rest →
      ((∃ w, Json.Spells levels (Source.ofText text) (.item w)) ↔ Blank rest) := by
  refine ⟨Json.ofSource_eq_ok_iff _, fun ms => ?_, fun query => ?_, fun prefs => ?_, fun levels v rest hstarts => ?_⟩
  · rw [Expect.fromText_eq_ok_iff Expect.probed_members]
    simp only [Expect.members_eq_ok_iff]
    constructor
    · rintro ⟨_, rest, hstarts, rfl⟩
      exact ⟨rest, hstarts⟩
    · rintro ⟨rest, hstarts⟩
      exact ⟨_, rest, hstarts, rfl⟩
  · exact Shape.takeText_eq_ok_iff QueryFile.probed_slots _ _ _
  · exact Shape.takeText_eq_ok_iff Preferences.probed_slots _ _ _
  · exact Json.spells_item_iff hstarts

/-- Every decoder accepts an empty object before a letter. -/
theorem decoders_ignore_rest : let text := "\x7b\x7d x"
    Json.ofText text = .ok (.object []) ∧ Expect.fromText Expect.members text = .ok [] ∧
      QueryFile.ofText text = .ok {} ∧ Preferences.ofText text = .ok .standard ∧
      ∀ levels v, ¬ Json.Spells levels (Source.ofText text) (.item v) := by
  intro text
  have hsource : Source.ofText text = [.char '\x7b', .char '\x7d', .char ' ', .char 'x'] := by
    decide
  have hmembers : ∀ levels, Json.Spells levels [.char '\x7d'] (.members []) := fun _ => Json.Spells.noMembers blank_nil
  have hstarts : ∀ levels, Json.Starts (levels + 1) (Source.ofText text) (.object []) [.char ' ', .char 'x'] :=
    fun levels => ⟨[], _, hsource, blank_nil, Json.Spells.object (hmembers levels), trivial⟩
  have hnotblank : ¬ Blank [.char ' ', .char 'x'] := by
    intro hblank
    exact absurd (hblank (.char 'x') (by simp)) (by decide)
  refine ⟨(Json.ofSource_eq_ok_iff _ _).mpr ⟨_, hstarts _⟩, ?_, ?_, ?_, fun levels v hitem => ?_⟩
  · exact (Expect.fromText_eq_ok_iff Expect.probed_members _ _).mpr ⟨_, _, hstarts _, rfl⟩
  · exact (Shape.takeText_eq_ok_iff QueryFile.probed_slots _ _ _).mpr ⟨_, [], _, hsource, blank_nil,
      Shape.Spells.object (hmembers _) List.nodup_nil rfl⟩
  · exact (Shape.takeText_eq_ok_iff Preferences.probed_slots _ _ _).mpr ⟨_, [], _, hsource, blank_nil,
      Shape.Spells.object (hmembers _) List.nodup_nil rfl⟩
  · cases levels with
    | zero =>
        obtain ⟨after, -, hwhole⟩ := Json.starts_of_item hitem
        have hread := (Json.read_eq_ok_iff _ _ _ _).mpr (hwhole [] Json.follows_nil)
        rw [hsource, Json.read, Json.readValue, List.append_nil, skipBlanks_cons rfl] at hread
        cases hread
    | succ levels => exact hnotblank ((Json.spells_item_iff (hstarts levels)).mp ⟨v, hitem⟩)

end RecordSearch
