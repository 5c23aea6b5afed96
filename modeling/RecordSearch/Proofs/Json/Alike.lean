import RecordSearch.Proofs.Json.Branches
import Mathlib.Data.List.Forall2
import Mathlib.Data.Option.Basic

/-!
# Equality up to the order of members

Two values are alike if they are equal but for the order of the members of objects.

* `Alike`: the relation, stated by lookup; `alike_array`: item by item.
* `alike_object_of_get?`: objects without repeated names are alike if all lookups are.
* `alike_child?`, `alike_of_forall_child?`: the same segments lead on in alike values, and to alike children.
-/

namespace RecordSearch
namespace Json

/-- Equal up to the order of the members of objects. -/
inductive Alike : Json → Json → Prop
  | leaf {v : Json} (hv : v.isLeaf = true) : Alike v v
  | array {xs ys : List Json} (hlength : xs.length = ys.length)
      (h : ∀ v w, (v, w) ∈ xs.zip ys → Alike v w) : Alike (.array xs) (.array ys)
  | object {ms ns : Members} (hnames : (Members.names ms).Perm (Members.names ns))
      (h : ∀ name v w, Members.get? name ms = some v → Members.get? name ns = some w → Alike v w) :
      Alike (.object ms) (.object ns)

theorem alike_array {xs ys : List Json} (h : List.Forall₂ Alike xs ys) : Alike (.array xs) (.array ys) := by
  obtain ⟨hlength, hzip⟩ := List.forall₂_iff_zip.mp h
  exact Alike.array hlength fun v w hvw => hzip hvw

/-- Objects in which the same names lead to alike values are alike. -/
theorem alike_object_of_get? {ms ns : Members} (hms : (Members.names ms).Nodup) (hns : (Members.names ns).Nodup)
    (h : ∀ name, Option.Rel Alike (Members.get? name ms) (Members.get? name ns)) :
    Alike (.object ms) (.object ns) := by
  refine Alike.object ?_ ?_
  · rw [List.perm_ext_iff_of_nodup hms hns]
    intro name
    have hname := h name
    rw [← Members.has_iff, ← Members.has_iff, Members.has, Members.has]
    generalize Members.get? name ms = v at hname ⊢
    generalize Members.get? name ns = w at hname ⊢
    cases hname <;> rfl
  · intro name v w hv hw
    have hvw := h name
    rw [hv, hw] at hvw
    cases hvw with
    | some hvw => exact hvw

theorem alike_child? {v w a b : Json} {s : Segment} (h : Alike v w) (ha : v.child? s = some a)
    (hb : w.child? s = some b) : Alike a b := by
  cases h with
  | leaf hv =>
      cases v with
      | array items => cases hv
      | object members => cases hv
      | _ => cases ha
  | array hlength h =>
      cases s with
      | key name => cases ha
      | index i => exact h a b (List.mem_of_getElem? (List.getElem?_zip_eq_some.mpr ⟨ha, hb⟩))
  | object hnames h =>
      cases s with
      | key name => exact h name a b ha hb
      | index i => cases ha

/-- Nested values in which the same segments lead to alike children are alike. -/
theorem alike_of_forall_child? {v w : Json} (hnested : nested v w = true) (hv : (v.branches.map (·.1)).Nodup)
    (hw : (w.branches.map (·.1)).Nodup) (hsome : ∀ s, (v.child? s).isSome = (w.child? s).isSome)
    (h : ∀ s a b, v.child? s = some a → w.child? s = some b → Alike a b) : Alike v w := by
  cases v with
  | array xs =>
      cases w with
      | array ys =>
          have hlengths (i : Nat) : i < xs.length ↔ i < ys.length := by
            have hi := Bool.eq_iff_iff.mp (hsome (.index i))
            simpa only [child?, isSome_getElem?] using hi
          have hlength : xs.length = ys.length := by
            have hle := hlengths xs.length
            have hge := hlengths ys.length
            omega
          refine Alike.array hlength fun a b hab => ?_
          obtain ⟨i, hi⟩ := List.mem_iff_getElem?.mp hab
          obtain ⟨ha, hb⟩ := List.getElem?_zip_eq_some.mp hi
          exact h (.index i) a b ha hb
      | _ => cases hnested
  | object ms =>
      cases w with
      | object ns =>
          rw [branches_object_fst] at hv hw
          refine Alike.object ?_ fun name a b ha hb => h (.key name) a b ha hb
          rw [List.perm_ext_iff_of_nodup hv.of_map hw.of_map]
          intro name
          rw [← Members.has_iff, ← Members.has_iff]
          exact Bool.coe_iff_coe.mpr (hsome (.key name))
      | _ => cases hnested
  | _ => cases hnested

end Json
end RecordSearch
