import RecordSearch.Lookup
import RecordSearch.Proofs.Flat.Levels

/-!
# Leaves and lookup

A leaf is found under the text of its path in two ways: the text is compared to that of every leaf, or it is read as a
path and followed.  A lookup reads names as indices where it comes to an array, so that it follows more texts.

* `DotFree`: no name has the separator of paths.
* `PlainIndices`: a lookup reads no other text as an index than the one that the index is written with.
* `mem_leaves_iff`: the leaves are the scalars at the paths of a value.
* `exists_leaf_text_iff`: a text is that of a leaf exactly if a lookup finds the leaf and reads plain indices only.
-/

namespace RecordSearch
namespace Json

open Flat

/-- No object among the parts has a name with a dot. -/
def DotFree (v : Json) : Prop :=
  v.Every fun w => ∀ members, w = .object members → ∀ name ∈ Members.names members, Path.defaultSeparator ∉ name.toList

/-- Where following the path leads to an array, the next name is the text of an index. -/
def PlainIndices (v : Json) (path : Path) : Prop :=
  ∀ before name after items, path = before ++ .key name :: after → v.follow? before = some (.array items) →
    ∃ i, name = (Segment.index i).text

section Get

theorem get_eq_ok_iff (root v : Json) {path : Path} (hpath : path ≠ []) :
    root.get path = .ok v ↔ root.follow? path = some v := by
  rw [get, if_neg hpath]
  cases root.follow? path <;> simp

theorem get_eq_error_iff (root : Json) {path : Path} (hpath : path ≠ []) (e : Error) :
    root.get path = .error e ↔ root.follow? path = none ∧ e = .notFound path := by
  rw [get, if_neg hpath]
  cases root.follow? path <;> simp [eq_comm]

end Get

section Leaves

variable {v w : Json}

/-- The leaves of a value are the scalars at its paths. -/
theorem mem_leaves_iff (hv : v.Distinct) (path : Path) (s : Scalar) :
    (path, s) ∈ v.leaves ↔ v.at? path = some s.toJson := by
  induction path generalizing v with
  | nil =>
      cases hleaf : v.isLeaf with
      | true =>
          rw [leaves_leaf hleaf]
          simp [at?, Scalar.ofJson?_eq_some_iff]
      | false =>
          have hne : v ≠ s.toJson := by
            rintro rfl
            simp at hleaf
          rw [leaves_eq_gather_branches hleaf, mem_gather]
          simp [at?, hne]
  | cons t path ih =>
      rw [at?, Option.bind_eq_some_iff]
      simp only [← mem_branches_iff (nodup_branches hv)]
      cases hleaf : v.isLeaf with
      | true =>
          rw [leaves_leaf hleaf, branches_leaf hleaf]
          simp [Option.map_eq_some_iff]
      | false =>
          rw [leaves_eq_gather_branches hleaf, mem_gather]
          constructor
          · rintro ⟨_, _, _, hgroup, hpath, hmem⟩
            obtain ⟨⟨_, w⟩, hw, heq⟩ := List.mem_map.mp hgroup
            cases heq
            cases hpath
            exact ⟨w, hw, (ih (distinct_of_branches hv hw)).mp hmem⟩
          · rintro ⟨w, hw, hat⟩
            exact ⟨t, path, w.leaves, List.mem_map.mpr ⟨(t, w), hw, rfl⟩, rfl,
              (ih (distinct_of_branches hv hw)).mpr hat⟩

theorem step?_of_child? {s : Segment} (h : v.child? s = some w) : v.step? s = some w := by
  cases v with
  | array items =>
      cases s with
      | index i => exact h
      | key name => cases h
  | object members =>
      cases s with
      | index i => cases h
      | key name => exact h
  | _ => cases h

theorem child_of_step? {s : Segment} (h : v.step? s = some w) : Child w v := by
  cases v with
  | array items =>
      cases s with
      | index i => exact Child.item (List.mem_of_getElem? h)
      | key name =>
          obtain ⟨i, _, hi⟩ := Option.bind_eq_some_iff.mp h
          exact Child.item (List.mem_of_getElem? hi)
  | object members =>
      cases s with
      | index i => cases h
      | key name => exact Child.member (Members.mem_of_get? h)
  | _ => cases h

/-- What a path is followed to is a part. -/
theorem part_of_follow? {path : Path} (h : v.follow? path = some w) : Part w v := by
  induction path generalizing v with
  | nil =>
      cases h
      exact Relation.ReflTransGen.refl
  | cons s path ih =>
      obtain ⟨u, hu, h⟩ := Option.bind_eq_some_iff.mp h
      exact (ih h).tail (child_of_step? hu)

/-- A segment that leads on in a value without dotted names has no dot itself. -/
theorem dot_notMem_text_of_child? (hv : v.DotFree) {s : Segment} (h : v.child? s = some w) :
    Path.defaultSeparator ∉ s.text.toList := by
  cases s with
  | index i =>
      rw [Segment.text, String.toList_ofList]
      intro hdot
      cases Decimal.isDigit_of_mem_digits hdot
  | key name =>
      cases v with
      | object members =>
          have hname : name ∈ Members.names members := (Members.has_iff _ _).mp (Option.isSome_iff_exists.mpr ⟨w, h⟩)
          exact ((every_iff _).mp hv).1 members rfl name hname
      | _ => cases h

theorem dot_notMem_text_of_at? (hv : v.DotFree) {path : Path} (h : v.at? path = some w) :
    ∀ s ∈ path, Path.defaultSeparator ∉ s.text.toList := by
  induction path generalizing v with
  | nil =>
      simp
  | cons s path ih =>
      obtain ⟨u, hu, h⟩ := Option.bind_eq_some_iff.mp h
      have hufree : u.DotFree := ((every_iff v).mp hv).2 u (child_of_step? (step?_of_child? hu))
      exact List.forall_mem_cons.mpr ⟨dot_notMem_text_of_child? hv hu, ih hufree h⟩

end Leaves

section Names

variable {v w : Json}

theorem plainIndices_nil (v : Json) : v.PlainIndices [] := by
  intro before name after items h
  simp at h

theorem plainIndices_cons (v : Json) (name : String) (rest : Path) :
    v.PlainIndices (.key name :: rest) ↔
      (∀ items, v = .array items → ∃ i, name = (Segment.index i).text) ∧
        ∀ w, v.step? (.key name) = some w → w.PlainIndices rest := by
  constructor
  · intro h
    refine ⟨fun items hv => h [] name rest items rfl (congrArg some hv), ?_⟩
    rintro w hw before other after items rfl hitems
    refine h (.key name :: before) other after items rfl ?_
    rw [follow?, hw]
    exact hitems
  · rintro ⟨hhere, hbelow⟩ before other after items hpath hitems
    cases before with
    | nil =>
        obtain ⟨hname, _⟩ := List.cons.inj hpath
        cases hname
        exact hhere items (Option.some.inj hitems)
    | cons s before =>
        obtain ⟨rfl, rfl⟩ := List.cons.inj hpath
        obtain ⟨w, hw, hitems⟩ := Option.bind_eq_some_iff.mp hitems
        exact hbelow w hw before other after items rfl hitems

/-- A name leads to the child under a segment with that text, but for names in arrays that are read as an index and are
not written like it. -/
theorem exists_child?_text_iff (v w : Json) (name : String) :
    (∃ s : Segment, s.text = name ∧ v.child? s = some w) ↔
      v.step? (.key name) = some w ∧ ∀ items, v = .array items → ∃ i, name = (Segment.index i).text := by
  cases v with
  | array items =>
      have hread (i : Nat) : (Json.array items).step? (.key (Segment.index i).text) = items[i]? := by
        rw [step?, Segment.text, String.toList_ofList, Decimal.unsigned?_digits, Option.bind_some]
      constructor
      · rintro ⟨s, rfl, hw⟩
        cases s with
        | key name => cases hw
        | index i => exact ⟨(hread i).trans hw, fun _ _ => ⟨i, rfl⟩⟩
      · rintro ⟨hw, hplain⟩
        obtain ⟨i, rfl⟩ := hplain items rfl
        exact ⟨.index i, rfl, (hread i).symm.trans hw⟩
  | object members =>
      constructor
      · rintro ⟨s, rfl, hw⟩
        cases s with
        | key name =>
            refine ⟨hw, fun items hitems => ?_⟩
            cases hitems
        | index i => cases hw
      · rintro ⟨hw, _⟩
        exact ⟨.key name, rfl, hw⟩
  | _ => simp [child?, step?]

/-- Following names is following a path whose segments have them as texts, but for the reading of indices. -/
theorem exists_at?_text_iff (v w : Json) (names : List String) :
    (∃ path : Path, path.map Segment.text = names ∧ v.at? path = some w) ↔
      v.follow? (names.map .key) = some w ∧ v.PlainIndices (names.map .key) := by
  induction names generalizing v with
  | nil =>
      simp [at?, follow?, plainIndices_nil]
  | cons name names ih =>
      rw [List.map_cons, plainIndices_cons, follow?, Option.bind_eq_some_iff]
      constructor
      · rintro ⟨path, hpath, hw⟩
        obtain ⟨s, path, rfl, hs, hpath⟩ := List.map_eq_cons_iff.mp hpath
        obtain ⟨u, hu, hw⟩ := Option.bind_eq_some_iff.mp hw
        obtain ⟨hstep, hplain⟩ := (exists_child?_text_iff v u name).mp ⟨s, hs, hu⟩
        obtain ⟨hfollow, hrest⟩ := (ih u).mp ⟨path, hpath, hw⟩
        refine ⟨⟨u, hstep, hfollow⟩, hplain, ?_⟩
        rintro u' hu'
        cases hstep.symm.trans hu'
        exact hrest
      · rintro ⟨⟨u, hstep, hfollow⟩, hplain, hrest⟩
        obtain ⟨s, rfl, hu⟩ := (exists_child?_text_iff v u name).mpr ⟨hstep, hplain⟩
        obtain ⟨path, rfl, hw⟩ := (ih u).mpr ⟨hfollow, hrest u hstep⟩
        exact ⟨s :: path, rfl, by rw [at?, hu]; exact hw⟩

/-- A text is that of a leaf exactly if it is followed to that leaf and plain indices only are read on the way. -/
theorem exists_leaf_text_iff (hv : v.Distinct) (hdots : v.DotFree) {name : String} (hname : name ≠ "") (s : Scalar) :
    (∃ path : Path, (path, s) ∈ v.leaves ∧ path.text = name) ↔
      v.follow? (Path.parse name) = some s.toJson ∧ v.PlainIndices (Path.parse name) := by
  obtain ⟨names, hnames⟩ : ∃ names : List String, Path.parse name = names.map .key := by
    rw [Path.parse, Path.parseWith, if_neg hname]
    exact ⟨_, (List.map_map ..).symm⟩
  rw [hnames, ← exists_at?_text_iff]
  refine exists_congr fun path => ?_
  rw [mem_leaves_iff hv, and_comm]
  refine and_congr_left fun hat => ?_
  have hread : path.text ≠ "" → Path.parse path.text = (path.map Segment.text).map .key := by
    intro hne
    rw [List.map_map]
    exact Path.parseWith_joined hne (dot_notMem_text_of_at? hdots hat)
  constructor
  · rintro rfl
    rw [hread hname] at hnames
    exact List.map_injective_iff.mpr (fun _ _ => Segment.key.inj) hnames
  · rintro rfl
    have htexts : ((path.map Segment.text).map Segment.key).map Segment.text = path.map Segment.text := by
      rw [List.map_map]
      exact List.map_id _
    rw [← Path.text_parse name, hnames, Path.text, Path.text, Path.joined, Path.joined, htexts]

end Names

end Json
end RecordSearch
