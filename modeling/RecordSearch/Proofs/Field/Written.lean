import RecordSearch.Field.Json
import RecordSearch.Proofs.Json.Shape
import RecordSearch.Proofs.Repetition

/-!
# Fields that are written and read

A field that was read can be written and read again, against any records.

**Canonical fields.**  `Canonical` is what reading ensures: the key is the path of a text, the choices are listed
without repetition, and the bounds are not crossed.

**Results.**
* `canonical_of_ofMembers`: a field that is read is canonical.
* `ofJson_toJson`: a canonical field is read from what it writes; no choice is looked for in the records.
-/

namespace RecordSearch
namespace Field

open Traversal Repetition

/-- The choices are listed without repetition, and the bounds are not crossed. -/
def CanonicalKind : FieldKind → Prop
  | .option choices _ => choices.Nodup
  | .integer min max => ∀ a ∈ min, ∀ b ∈ max, ¬ b < a
  | .text => True

/-- The key is the path of a text, and the kind is as reading leaves it. -/
structure Canonical (field : Field) : Prop where
  key : ∃ text, field.key = Path.parse text
  kind : CanonicalKind field.kind

section Reading

/-- The key of a definition, if there is one, is the path of a text. -/
def Definition.HasTextKey (d : Definition) : Prop :=
  ∀ key, d.key = some key → ∃ text, key = Path.parse text

theorem keeps_commonSlots : ∀ slot ∈ Definition.commonSlots, slot.Keeps Definition.HasTextKey := by
  simp only [Definition.commonSlots, List.forall_mem_cons]
  refine ⟨Slot.keeps_of _ ?_, Slot.keeps_of _ fun _ _ _ _ h => h, by simp⟩
  intro value path d hpath _ key hkey
  obtain ⟨text, _, rfl⟩ := (map_eq_ok_iff _ _ _).mp hpath
  cases hkey
  exact ⟨text, rfl⟩

theorem keeps_optionShape : ∀ slot ∈ Definition.optionShape.slots, slot.Keeps Definition.HasTextKey := by
  simp only [Definition.optionShape, List.forall_mem_append, List.forall_mem_cons]
  exact ⟨keeps_commonSlots, Slot.keeps_of _ fun _ _ _ _ h => h, Slot.keeps_of _ fun _ _ _ _ h => h, by simp⟩

theorem keeps_integerShape : ∀ slot ∈ Definition.integerShape.slots, slot.Keeps Definition.HasTextKey := by
  simp only [Definition.integerShape, List.forall_mem_append, List.forall_mem_cons]
  exact ⟨keeps_commonSlots, Slot.keeps_of _ fun _ _ _ _ h => h, Slot.keeps_of _ fun _ _ _ _ h => h, by simp⟩

theorem exists_text_of_decode {shape : Shape Definition} (hslots : ∀ slot ∈ shape.slots, slot.Keeps Definition.HasTextKey)
    {members : Members} {key : Path} {d : Definition} (h : Definition.decode shape members = .ok (key, d)) :
    ∃ text, key = Path.parse text := by
  rw [Definition.decode] at h
  obtain ⟨taken, htaken, h⟩ := (bind_eq_ok_iff _ _ _).mp h
  rw [mapError_eq_ok_iff] at htaken
  have hempty : ({} : Definition).HasTextKey := by
    rintro _ ⟨⟩
  have hkey := Shape.takeMembers_keeps hslots hempty htaken
  split at h
  · rename_i hk
    cases h
    exact hkey _ hk
  · cases h

theorem nodup_listedChoices {values : List Json} {choices : List Scalar} (h : listedChoices values = .ok choices) :
    choices.Nodup := by
  obtain ⟨scalars, _, h⟩ := (bind_eq_ok_iff _ _ _).mp h
  cases h
  exact nodup_eraseDups scalars

theorem canonical_of_optionOfMembers {members : Members} {records : List Json} {field : Field}
    (h : optionOfMembers members records = .ok field) : field.Canonical := by
  obtain ⟨⟨key, d⟩, hdecode, h⟩ := (bind_eq_ok_iff _ _ _).mp h
  have hkey := exists_text_of_decode keeps_optionShape hdecode
  dsimp only at h
  split at h
  · obtain ⟨choices, hchoices, h⟩ := (bind_eq_ok_iff _ _ _).mp h
    cases h
    exact ⟨hkey, nodup_listedChoices hchoices⟩
  · cases h
    exact ⟨hkey, nodup_eraseDups _⟩

theorem canonical_of_integerOfMembers {members : Members} {field : Field}
    (h : integerOfMembers members = .ok field) : field.Canonical := by
  obtain ⟨⟨key, d⟩, hdecode, h⟩ := (bind_eq_ok_iff _ _ _).mp h
  have hkey := exists_text_of_decode keeps_integerShape hdecode
  dsimp only at h
  split at h
  · rename_i min max hmin hmax
    split at h
    · cases h
    · rename_i hbounds
      cases h
      refine ⟨hkey, fun a ha b hb => ?_⟩
      obtain rfl := Option.some.inj (hmin.symm.trans ha)
      obtain rfl := Option.some.inj (hmax.symm.trans hb)
      exact hbounds
  · rename_i hnot
    cases h
    exact ⟨hkey, fun a ha b hb => absurd hb (hnot a b ha)⟩

theorem canonical_of_textOfMembers {members : Members} {field : Field} (h : textOfMembers members = .ok field) :
    field.Canonical := by
  obtain ⟨⟨key, d⟩, hdecode, h⟩ := (bind_eq_ok_iff _ _ _).mp h
  cases h
  exact ⟨exists_text_of_decode keeps_commonSlots hdecode, trivial⟩

theorem canonical_of_ofMembers {name : String} {definition : Members} {records : List Json} {field : Field}
    (h : ofMembers name definition records = .ok field) : field.Canonical := by
  simp only [ofMembers] at h
  split at h
  · cases h
  · exact canonical_of_optionOfMembers ((mapError_eq_ok_iff _ _ _).mp h)
  · exact canonical_of_integerOfMembers ((mapError_eq_ok_iff _ _ _).mp h)
  · exact canonical_of_textOfMembers ((mapError_eq_ok_iff _ _ _).mp h)
  · cases h
  · cases h

theorem canonical_of_ofJson {name : String} {definition : Json} {records : List Json} {field : Field}
    (h : ofJson name definition records = .ok field) : field.Canonical := by
  cases definition with
  | object members => exact canonical_of_ofMembers h
  | _ => cases h

end Reading

section Writing

/-- What the members that every kind writes say. -/
def commonDefinition (field : Field) : Definition :=
  { key := some field.key, optional := field.optional }

/-- The members of a field without its type. -/
def attributes (field : Field) : Members :=
  ("key", .string field.key.text) :: ("optional", .bool field.optional) :: kindMembers field.kind

theorem erase_type_toJson (field : Field) :
    Members.erase "type" (("type", .string field.kind.name) :: field.attributes) = field.attributes := by
  obtain ⟨key, optional, kind⟩ := field
  cases kind with
  | option choices multiSelection => cases multiSelection <;> rfl
  | integer min max => cases min <;> cases max <;> rfl
  | text => rfl

variable {field : Field}

/-- The members that every kind writes are read first, by any shape that knows them. -/
theorem takeMembers_common (hkey : ∃ text, field.key = Path.parse text) {shape : Shape Definition}
    {others : List (Slot Definition)} (hslots : shape.slots = Definition.commonSlots ++ others) (rest : Members) :
    shape.takeMembers (("key", .string field.key.text) :: ("optional", .bool field.optional) :: rest) {} =
      shape.takeMembers rest field.commonDefinition := by
  obtain ⟨text, htext⟩ := hkey
  have hpath : Expect.path (.string field.key.text) = .ok field.key := by
    rw [htext, Path.text_parse]
    rfl
  have hslot (name : String) : shape.slot? name = (Definition.commonSlots ++ others).find? (·.name == name) := by
    rw [Shape.slot?, hslots]
  have hflag : Expect.flag (.bool field.optional) = .ok field.optional := rfl
  rw [Shape.takeMembers_cons _ (hslot "key") (Slot.assign_of "key" _ hpath _),
    Shape.takeMembers_cons _ (hslot "optional") (Slot.assign_of "optional" _ hflag _)]
  rfl

/-- Written scalars are read back, one after the other. -/
theorem mapM_ofJson_toJson {ε : Type} (fail : TypeError → ε) (scalars : List Scalar) :
    (scalars.map Scalar.toJson).mapM (fun value => (Scalar.ofJson value).mapError fail) = .ok scalars := by
  rw [mapM_eq_ok_iff, List.forall₂_map_left_iff, List.forall₂_same]
  intro s _
  rw [Scalar.ofJson_toJson]
  rfl

theorem listedChoices_toJson {choices : List Scalar} (h : choices.Nodup) :
    listedChoices (choices.map Scalar.toJson) = .ok choices := by
  rw [listedChoices, mapM_ofJson_toJson]
  exact congrArg Except.ok (eraseDups_of_nodup h)

theorem decode_of_takeMembers {shape : Shape Definition} {members : Members} {d : Definition} {key : Path}
    (h : shape.takeMembers members {} = .ok d) (hkey : d.key = some key) :
    Definition.decode shape members = .ok (key, d) := by
  have htake : (shape.take {} (.object members)).mapError FieldError.undecodable = .ok d :=
    congrArg (Except.mapError FieldError.undecodable) h
  rw [Definition.decode, htake]
  simp only [bind, Except.bind, hkey]
  rfl

theorem optionOfMembers_attributes {choices : List Scalar} {multiSelection : Bool} (h : field.Canonical)
    (hkind : field.kind = .option choices multiSelection) (records : List Json) :
    optionOfMembers field.attributes records = .ok field := by
  have hchoices : choices.Nodup := by
    have hcanonical := h.kind
    rwa [hkind] at hcanonical
  obtain ⟨key, optional, kind⟩ := field
  subst hkind
  have htaken : Definition.optionShape.takeMembers (attributes ⟨key, optional, .option choices multiSelection⟩) {} =
      .ok { key := some key, optional, values := some (choices.map Scalar.toJson), multiSelection } := by
    rw [attributes, takeMembers_common h.key rfl, kindMembers, Shape.takeMembers_cons _ rfl (Slot.assign_of "values" _
      (congrArg (Except.map some) (Expect.itemsFrom_any 0 _)) _)]
    cases multiSelection <;> rfl
  rw [optionOfMembers, decode_of_takeMembers htaken rfl]
  change (do
    let choices ← listedChoices (choices.map Scalar.toJson)
    return Field.mk key optional (.option choices multiSelection)) = _
  rw [listedChoices_toJson hchoices]
  rfl

theorem integerOfMembers_attributes {min max : Option Int64} (h : field.Canonical)
    (hkind : field.kind = .integer min max) : integerOfMembers field.attributes = .ok field := by
  have hbounds : CanonicalKind (.integer min max) := hkind ▸ h.kind
  obtain ⟨key, optional, kind⟩ := field
  subst hkind
  have htaken : Definition.integerShape.takeMembers (attributes ⟨key, optional, .integer min max⟩) {} =
      .ok { key := some key, optional, min, max } := by
    rw [attributes, takeMembers_common h.key rfl, kindMembers]
    cases min <;> cases max <;> rfl
  rw [integerOfMembers, decode_of_takeMembers htaken rfl]
  cases min with
  | none =>
      cases max <;> rfl
  | some a =>
      cases max with
      | none =>
          rfl
      | some b =>
          have hab : ¬ b < a := hbounds a rfl b rfl
          change (if b < a then _ else _) = _
          rw [if_neg hab]
          rfl

theorem textOfMembers_attributes (h : field.Canonical) (hkind : field.kind = .text) :
    textOfMembers field.attributes = .ok field := by
  obtain ⟨key, optional, kind⟩ := field
  subst hkind
  have htaken : Definition.textShape.takeMembers (attributes ⟨key, optional, .text⟩) {} =
      .ok { key := some key, optional } := by
    rw [attributes, takeMembers_common h.key (List.append_nil _).symm, kindMembers]
    rfl
  rw [textOfMembers, decode_of_takeMembers htaken rfl]
  rfl

/-- A canonical field is read from what it writes, against any records. -/
theorem ofJson_toJson (h : field.Canonical) (name : String) (records : List Json) :
    ofJson name field.toJson records = .ok field := by
  change ofMembers name (("type", .string field.kind.name) :: field.attributes) records = .ok field
  simp only [ofMembers, erase_type_toJson, Members.get?_cons, if_true]
  cases hkind : field.kind with
  | option choices multiSelection =>
      simp only [FieldKind.name]
      rw [optionOfMembers_attributes h hkind]
      rfl
  | integer min max =>
      simp only [FieldKind.name]
      rw [integerOfMembers_attributes h hkind]
      rfl
  | text =>
      simp only [FieldKind.name]
      rw [textOfMembers_attributes h hkind]
      rfl

end Writing
end Field
end RecordSearch
