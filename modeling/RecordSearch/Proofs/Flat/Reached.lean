import RecordSearch.Proofs.Flat.Consistent
import RecordSearch.Proofs.Flat.Lookup

/-!
# The leaves that a lookup reaches

The flat view walks a whole value, and a lookup follows one path.  They speak of the same locations: a path that is
followed to a scalar is the path of a leaf, once the names that are read as indices are replaced by these.

* `readPath`: the path with this replacement; `at?_readPath`: following a path is walking along the replaced one.
* `pairwise_apart_leaves`: no path of a leaf leads on from that of another leaf.
* `flatten_lists_reached`: the main result.
-/

namespace RecordSearch
namespace Json

open Flat

/-- The segment that a lookup takes in a value: in an array, a name is replaced by the index that it is read as. -/
def readSegment : Json → Segment → Segment
  | .array _, .key name => ((Decimal.unsigned? name.toList).map Segment.index).getD (.key name)
  | _, segment => segment

/-- The path with every name that is applied to an array replaced by the index that it is read as. -/
def readPath (v : Json) : Path → Path
  | [] => []
  | s :: rest =>
      v.readSegment s ::
        match v.child? (v.readSegment s) with
        | some w => w.readPath rest
        | none => rest

section Reading

variable {v w : Json}

theorem child?_readSegment (v : Json) (s : Segment) : v.child? (v.readSegment s) = v.step? s := by
  cases v with
  | array items =>
      cases s with
      | index i => rfl
      | key name =>
          cases hread : Decimal.unsigned? name.toList with
          | none => simp [readSegment, step?, child?, hread]
          | some i => simp [readSegment, step?, child?, hread]
  | object members => cases s <;> rfl
  | _ => cases s <;> rfl

/-- A path is followed to what lies at the path that it is read as. -/
theorem at?_readPath (v : Json) (path : Path) : v.at? (v.readPath path) = v.follow? path := by
  induction path generalizing v with
  | nil => rfl
  | cons s rest ih =>
      rw [readPath, at?, follow?, child?_readSegment]
      cases v.step? s with
      | none => rfl
      | some w => exact ih w

/-- Where a segment leads to a child, it is read as it is. -/
theorem readSegment_of_child? {s : Segment} (h : v.child? s = some w) : v.readSegment s = s := by
  cases v with
  | array items =>
      cases s with
      | index i => rfl
      | key name => cases h
  | _ => rfl

/-- Where something lies at a path, the path is read as it is. -/
theorem readPath_of_at? {path : Path} (h : v.at? path = some w) : v.readPath path = path := by
  induction path generalizing v with
  | nil => rfl
  | cons s rest ih =>
      obtain ⟨u, hu, hrest⟩ := Option.bind_eq_some_iff.mp h
      simp only [readPath, readSegment_of_child? hu, hu, ih hrest]

end Reading

section Leaves

variable {v : Json}

/-- The leaves below the segment of a child are the leaves of that child. -/
theorem below_leaves (hv : v.Distinct) {s : Segment} {w : Json} (hw : (s, w) ∈ v.branches) :
    below s v.leaves = w.leaves := by
  have hleaf : v.isLeaf = false := by
    refine Bool.eq_false_iff.mpr fun hleaf => ?_
    rw [branches_leaf hleaf] at hw
    cases hw
  rw [leaves_eq_gather_branches hleaf]
  refine below_gather ?_ (List.mem_map.mpr ⟨(s, w), hw, rfl⟩)
  rw [List.map_map]
  exact nodup_branches hv

/-- No path of a leaf leads on from that of another leaf. -/
theorem pairwise_apart_leaves (hv : v.Distinct) : v.leaves.Pairwise Apart := by
  induction v using wellFounded_child.induction with | _ v ih
  cases hleaf : v.isLeaf with
  | true =>
      rw [leaves_leaf hleaf]
      cases Scalar.ofJson? v with
      | none => exact List.Pairwise.nil
      | some s => exact List.pairwise_singleton _ _
  | false =>
      have hstarted : ∀ leaf ∈ v.leaves, leaf.1 ≠ [] := by
        rintro ⟨path, s⟩ hmem
        rw [leaves_eq_gather_branches hleaf] at hmem
        obtain ⟨t, rest, _, _, rfl, _⟩ := (mem_gather _ _ _).mp hmem
        exact List.cons_ne_nil t rest
      refine (apart_iff_below hstarted).mpr fun s => ?_
      cases hs : v.child? s with
      | some w =>
          have hw := (mem_branches_iff (nodup_branches hv) s w).mpr hs
          rw [below_leaves hv hw]
          exact ih w (child_of_mem_branches hw) (distinct_of_branches hv hw)
      | none =>
          -- A leaf below a segment would lie below a child.
          have hnil : below s v.leaves = [] := by
            refine List.eq_nil_iff_forall_not_mem.mpr ?_
            rintro ⟨rest, t⟩ hmem
            rw [mem_below, mem_leaves_iff hv, at?, hs] at hmem
            cases hmem
          rw [hnil]
          exact List.Pairwise.nil

/-- **The flat view lists what a lookup reaches.**  If a value has a flat view, a path that is not empty is followed to
a scalar exactly if this scalar is listed under the path as it is read, and the listed paths are read as they are.  None
is listed twice, and none leads on from another one.  A value has no flat view exactly if some leaf is a null, a float
or an integer that 64 bits with sign do not hold. -/
theorem flatten_lists_reached (v : Json) (hv : v.Distinct) :
    (∀ flat, v.flatten = .ok flat →
      (∀ path s, path ≠ [] → (v.get path = .ok (Scalar.toJson s) ↔ (v.readPath path, s) ∈ flat)) ∧
      (∀ leaf ∈ flat, v.readPath leaf.1 = leaf.1) ∧
      flat.Pairwise Apart) ∧
    ((∃ e, v.flatten = .error e) ↔ ∃ w, Part w v ∧ w.Untypable) := by
  constructor
  · intro flat hflat
    obtain ⟨_, rfl⟩ := (flatten_eq_ok_iff v flat).mp hflat
    refine ⟨fun path s hpath => ?_, ?_, pairwise_apart_leaves hv⟩
    · rw [get_eq_ok_iff v _ hpath, mem_leaves_iff hv, at?_readPath]
    · rintro ⟨path, s⟩ hmem
      exact readPath_of_at? ((mem_leaves_iff hv path s).mp hmem)
  · rw [← not_iff_not, ← typed_iff]
    cases hflat : v.flatten with
    | error e =>
        have htyped : ¬ v.Typed := by
          intro htyped
          have hok := (flatten_eq_ok_iff v v.leaves).mpr ⟨htyped, rfl⟩
          rw [hflat] at hok
          cases hok
        simp [htyped]
    | ok flat =>
        simp [((flatten_eq_ok_iff v flat).mp hflat).1]

/-- An index with a sign and a leading zero, above a member whose name looks like an index. -/
theorem flatten_lists_reached_signed :
    let v : Json := .object [("tags", .array [.string "sf", .object [("0", .bool true)]]), ("notes", .array [])]
    let path : Path := [.key "tags", .key "+01", .key "0"]
    let flat : Flat := [([.key "tags", .index 0], .str "sf"), ([.key "tags", .index 1, .key "0"], .bool true)]
    v.Distinct ∧ v.flatten = .ok flat ∧ path ≠ [] ∧ v.readPath path = [.key "tags", .index 1, .key "0"] ∧
      v.get path = .ok (.bool true) ∧ flat.Pairwise Apart ∧ ¬ ∃ w, Part w v ∧ w.Untypable := by
  intro v path flat
  have hv : v.Distinct := by
    simp only [v, distinct_object, distinct_array, List.forall_mem_cons]
    exact ⟨by decide, ⟨distinct_leaf rfl, ⟨by decide, distinct_leaf rfl, by simp⟩, by simp⟩, by simp, by simp⟩
  have hflat : v.flatten = .ok flat := by
    rfl
  have hpath : path ≠ [] := by
    simp [path]
  have hread : v.readPath path = [.key "tags", .index 1, .key "0"] := by
    rfl
  obtain ⟨hlists, hfails⟩ := flatten_lists_reached v hv
  obtain ⟨hreached, _, hapart⟩ := hlists flat hflat
  refine ⟨hv, hflat, hpath, hread, (hreached path (.bool true) hpath).mpr ?_, hapart, ?_⟩
  · rw [hread]
    simp [flat]
  · rw [← hfails, hflat]
    rintro ⟨e, he⟩
    cases he

end Leaves

end Json
end RecordSearch
