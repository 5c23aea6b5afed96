import RecordSearch.Scalar
import Mathlib.Data.List.Nodup
import Mathlib.Logic.Relation

/-!
# Parts of values

A value is a tree: the items of an array and the values of the members of an object are its children, and its parts are
what children lead to.  A property of a whole tree is stated as a property of every part.

* `Part`: the parts of a value, itself among them; `Every`: all of them have a property.
* `Distinct`: no object has two members of one name.  Inserting a member replaces the one of its name, so that this
  holds of all values that are read or built.
* `Typed`: every leaf is a scalar; `Untypable`: the other leaves.
* `induction_on_children`, `induction_on_parts`: induction over a value.
-/

namespace RecordSearch

/-- A null, a float, or an integer that 64 bits with sign do not hold. -/
inductive Json.Untypable : Json → Prop
  | null : Untypable .null
  | float (n : Binary64) : Untypable (.number (.float n))
  | wide (n : UInt64) : Untypable (.number (.wide n))

theorem JsonType.untypable_iff (v : Json) : v.Untypable ↔ ¬ ∃ t, JsonType.of v = .ok t := by
  constructor
  · rintro (_ | _ | _) ⟨t, ht⟩ <;> cases ht
  · intro h
    cases v with
    | null => exact .null
    | number n =>
        cases n with
        | int n => exact absurd ⟨_, rfl⟩ h
        | wide n => exact .wide n
        | float n => exact .float n
    | _ => exact absurd ⟨_, rfl⟩ h

theorem JsonType.of_eq_scalar_iff (v : Json) : JsonType.of v = .ok .scalar ↔ ∃ s : Scalar, v = s.toJson := by
  constructor
  · intro h
    cases v with
    | bool b => exact ⟨.bool b, rfl⟩
    | string s => exact ⟨.str s, rfl⟩
    | number n =>
        cases n with
        | int n => exact ⟨.int n, rfl⟩
        | wide n => cases h
        | float n => cases h
    | _ => cases h
  · rintro ⟨s, rfl⟩
    cases s <;> rfl

namespace Json

/-- The first value is an item, or the value of a member, of the second one. -/
inductive Child : Json → Json → Prop
  | item {items : List Json} {v : Json} (h : v ∈ items) : Child v (.array items)
  | member {members : Members} {name : String} {v : Json} (h : (name, v) ∈ members) : Child v (.object members)

/-- The first value is the second one, or a part of a child of it. -/
def Part : Json → Json → Prop :=
  Relation.ReflTransGen Child

/-- All parts of a value have a property. -/
def Every (p : Json → Prop) (v : Json) : Prop :=
  ∀ w, Part w v → p w

/-- The value is neither an array nor an object. -/
def isLeaf : Json → Bool
  | .array _ | .object _ => false
  | _ => true

@[simp] theorem isLeaf_toJson (scalar : Scalar) : scalar.toJson.isLeaf = true := by
  cases scalar <;> rfl

/-- No object among the parts has two members of one name. -/
def Distinct (v : Json) : Prop :=
  v.Every fun w => ∀ members, w = .object members → (Members.names members).Nodup

/-- Every leaf among the parts is a scalar. -/
def Typed (v : Json) : Prop :=
  v.Every fun w => w.isLeaf = true → ∃ s : Scalar, w = s.toJson

theorem wellFounded_child : WellFounded Child := by
  refine Subrelation.wf (r := InvImage (· < ·) (sizeOf : Json → Nat)) ?_ (InvImage.wf _ Nat.lt_wfRel.wf)
  intro v w h
  cases h with
  | item h =>
      have hsize := List.sizeOf_lt_of_mem h
      simp only [InvImage, Json.array.sizeOf_spec]
      omega
  | @member members name v h =>
      have hsize := List.sizeOf_lt_of_mem h
      simp only [Prod.mk.sizeOf_spec] at hsize
      simp only [InvImage, Json.object.sizeOf_spec]
      omega

theorem induction_on_parts {motive : Json → Prop}
    (step : ∀ v, (∀ w, Relation.TransGen Child w v → motive w) → motive v) (v : Json) : motive v :=
  wellFounded_child.transGen.induction v step

@[elab_as_elim]
theorem induction_on_children {motive : Json → Prop}
    (leaf : ∀ v, v.isLeaf = true → motive v)
    (array : ∀ items, (∀ v ∈ items, motive v) → motive (.array items))
    (object : ∀ members : Members, (∀ m ∈ members, motive m.2) → motive (.object members))
    (v : Json) : motive v := by
  refine wellFounded_child.induction v fun v ih => ?_
  cases v with
  | array items => exact array items fun w hw => ih w (Child.item hw)
  | object members => exact object members fun m hm => ih m.2 (Child.member hm)
  | null => exact leaf _ rfl
  | bool b => exact leaf _ rfl
  | number n => exact leaf _ rfl
  | string s => exact leaf _ rfl

section Every

variable {p : Json → Prop}

/-- A property holds of all parts if it holds of the value and of all parts of its children. -/
theorem every_iff (v : Json) : v.Every p ↔ p v ∧ ∀ w, Child w v → w.Every p := by
  constructor
  · intro h
    refine ⟨h v Relation.ReflTransGen.refl, ?_⟩
    intro w hw u hu
    exact h u (hu.tail hw)
  · rintro ⟨hv, hchildren⟩ u hu
    rcases Relation.ReflTransGen.cases_tail hu with rfl | ⟨w, huw, hw⟩
    · exact hv
    · exact hchildren w hw u huw

@[simp] theorem every_array (items : List Json) :
    (Json.array items).Every p ↔ p (.array items) ∧ ∀ v ∈ items, v.Every p := by
  rw [every_iff]
  refine and_congr_right fun _ => ⟨fun h v hv => h v (Child.item hv), ?_⟩
  rintro h w ⟨hw⟩
  exact h w hw

@[simp] theorem every_object (members : Members) :
    (Json.object members).Every p ↔ p (.object members) ∧ ∀ m ∈ members, m.2.Every p := by
  rw [every_iff]
  refine and_congr_right fun _ => ⟨fun h m hm => h m.2 (Child.member hm), ?_⟩
  intro h w hw
  cases hw with
  | @member _ name w hw => exact h (name, w) hw

theorem every_leaf {v : Json} (hv : v.isLeaf = true) : v.Every p ↔ p v := by
  rw [every_iff]
  refine and_iff_left_of_imp fun _ => ?_
  rintro w hw
  cases hw <;> cases hv

end Every

section Distinct

theorem distinct_array (items : List Json) :
    (Json.array items).Distinct ↔ ∀ v ∈ items, v.Distinct := by
  refine (every_array items).trans (and_iff_right fun members h => ?_)
  cases h

theorem distinct_object (members : Members) :
    (Json.object members).Distinct ↔ (Members.names members).Nodup ∧ ∀ m ∈ members, m.2.Distinct := by
  refine (every_object members).trans (and_congr_left fun _ => ?_)
  simp

theorem distinct_leaf {v : Json} (hv : v.isLeaf = true) : v.Distinct := by
  refine (every_leaf hv).mpr ?_
  rintro members rfl
  cases hv

end Distinct

section Typed

theorem typed_array (items : List Json) :
    (Json.array items).Typed ↔ ∀ v ∈ items, v.Typed := by
  refine (every_array items).trans (and_iff_right fun h => ?_)
  cases h

theorem typed_object (members : Members) :
    (Json.object members).Typed ↔ ∀ m ∈ members, m.2.Typed := by
  refine (every_object members).trans (and_iff_right fun h => ?_)
  cases h

theorem typed_leaf {v : Json} (hv : v.isLeaf = true) : v.Typed ↔ ∃ s : Scalar, v = s.toJson :=
  (every_leaf hv).trans (imp_iff_right hv)

theorem untypable_iff_of_leaf {v : Json} (hv : v.isLeaf = true) : v.Untypable ↔ ¬ ∃ s : Scalar, v = s.toJson := by
  rw [JsonType.untypable_iff, ← JsonType.of_eq_scalar_iff]
  refine not_congr ⟨?_, fun h => ⟨_, h⟩⟩
  rintro ⟨t, ht⟩
  cases v with
  | array items => cases hv
  | object members => cases hv
  | bool b => rfl
  | string s => rfl
  | null => cases ht
  | number n =>
      cases n with
      | int n => rfl
      | wide n => cases ht
      | float n => cases ht

theorem isLeaf_of_untypable {v : Json} (h : v.Untypable) : v.isLeaf = true := by
  cases h <;> rfl

/-- All leaves are scalars if none is a null, a float or a wide integer. -/
theorem typed_iff (v : Json) : v.Typed ↔ ¬ ∃ w, Part w v ∧ w.Untypable := by
  constructor
  · rintro h ⟨w, hw, huntypable⟩
    have hleaf := isLeaf_of_untypable huntypable
    exact (untypable_iff_of_leaf hleaf).mp huntypable (h w hw hleaf)
  · intro h w hw hleaf
    refine by_contra fun hscalar => h ⟨w, hw, ?_⟩
    exact (untypable_iff_of_leaf hleaf).mpr hscalar

end Typed

end Json
end RecordSearch
