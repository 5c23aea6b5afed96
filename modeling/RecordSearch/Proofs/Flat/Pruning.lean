import RecordSearch.Proofs.Flat.Leaves

/-!
# Expanding the flat view of a value

The flat view loses the parts of a value that hold no scalar, and expanding it gives the value without them.  An array
must not have such a part before another one, since the items behind it would then lack an index.

* `Leafless`: a value holds no scalar; `prune`: a value without its leafless parts.
* `Dense`: in every array the leafless items come last.
* `RebuiltBy`, `rebuiltBy_expandWithin`: the leaves of a value that is not leafless expand to its pruned form if the
  value is dense, and else to the error for missing leaves.
* `expand_flatten`: the flat view expands to the value itself exactly if no container in it is empty.
-/

namespace RecordSearch
namespace Json

/-- No part of the value is a scalar. -/
def Leafless (v : Json) : Prop :=
  v.Every fun w => ∀ s : Scalar, w ≠ s.toJson

/-- In no array among the parts a leafless item comes before one that is not leafless. -/
def Dense (v : Json) : Prop :=
  v.Every fun w => ∀ items, w = .array items → items.Pairwise fun a b => a.Leafless → b.Leafless

/-- No part of the value is a container without children. -/
def NoEmptyContainer (v : Json) : Prop :=
  v.Every fun w => w ≠ .array [] ∧ w ≠ .object []

section Leafless

theorem leafless_array (items : List Json) :
    (Json.array items).Leafless ↔ ∀ v ∈ items, v.Leafless := by
  rw [Leafless, every_array]
  refine and_iff_right ?_
  rintro (_ | _ | _) h <;> cases h

theorem leafless_object (members : Members) :
    (Json.object members).Leafless ↔ ∀ m ∈ members, m.2.Leafless := by
  rw [Leafless, every_object]
  refine and_iff_right ?_
  rintro (_ | _ | _) h <;> cases h

theorem not_leafless_scalar (s : Scalar) : ¬ s.toJson.Leafless :=
  fun h => h _ Relation.ReflTransGen.refl s rfl

theorem forall_mem_zipIdx (items : List Json) (index : Nat) (p : Json → Prop) :
    (∀ entry ∈ items.zipIdx index, p entry.1) ↔ ∀ v ∈ items, p v := by
  rw [← List.forall_mem_map (f := Prod.fst) (P := p), List.zipIdx_map_fst]

theorem map_zipIdx_fst {α : Type} (f : Json → α) (items : List Json) :
    (items.zipIdx.map fun entry => f entry.1) = items.map f := by
  have h := congrArg (List.map f) (List.zipIdx_map_fst 0 items)
  rw [List.map_map] at h
  exact h

/-- The leafless values are those without leaves. -/
theorem leaves_eq_nil_iff (v : Json) : v.leaves = [] ↔ v.Leafless := by
  induction v using induction_on_children with
  | leaf v hv =>
      by_cases hs : ∃ s : Scalar, v = s.toJson
      · obtain ⟨s, rfl⟩ := hs
        simp [leaves_scalar, not_leafless_scalar]
      · simp only [not_exists] at hs
        simp only [leaves_of_untyped hv hs, true_iff]
        exact (every_leaf hv).mpr hs
  | array items ih =>
      rw [leaves_array, Flat.gather_eq_nil_iff, leafless_array]
      simp only [itemGroups, List.map_map, List.forall_mem_map]
      rw [← forall_mem_zipIdx items 0 fun v => v.Leafless]
      exact forall₂_congr fun entry hentry => ih entry.1 (List.fst_mem_of_mem_zipIdx hentry)
  | object members ih =>
      rw [leaves_object, Flat.gather_eq_nil_iff, leafless_object]
      simp only [memberGroups, List.map_map, List.forall_mem_map]
      exact forall₂_congr fun m hm => ih m hm

instance (v : Json) : Decidable v.Leafless :=
  decidable_of_iff (v.leaves.isEmpty = true) (by rw [List.isEmpty_iff, leaves_eq_nil_iff])

end Leafless

mutual

/-- The value without its leafless parts. -/
def prune : Json → Json
  | .array items => .array (pruneItems items)
  | .object members => .object (pruneMembers members)
  | leaf => leaf

/-- The pruned items, without the leafless ones. -/
def pruneItems : List Json → List Json
  | [] => []
  | v :: rest => if v.Leafless then pruneItems rest else prune v :: pruneItems rest

/-- The pruned members, without the leafless ones. -/
def pruneMembers : List (String × Json) → Members
  | [] => []
  | (name, v) :: rest => if v.Leafless then pruneMembers rest else (name, prune v) :: pruneMembers rest

end

theorem prune_array (items : List Json) : (Json.array items).prune = .array (pruneItems items) := rfl

theorem prune_object (members : Members) : (Json.object members).prune = .object (pruneMembers members) := rfl

theorem pruneItems_eq (items : List Json) :
    pruneItems items = (items.filter fun v => ¬ v.Leafless).map prune := by
  induction items with
  | nil =>
      rw [pruneItems]
      rfl
  | cons v rest ih =>
      by_cases h : v.Leafless <;> simp [pruneItems, h, ih]

theorem pruneMembers_eq (members : Members) :
    pruneMembers members =
      (members.filter fun m => ¬ m.2.Leafless).map fun m => (m.1, prune m.2) := by
  induction members with
  | nil =>
      rw [pruneMembers]
      rfl
  | cons m rest ih =>
      obtain ⟨name, v⟩ := m
      by_cases h : v.Leafless <;> simp [pruneMembers, h, ih]

theorem prune_leaf {v : Json} (hv : v.isLeaf = true) : v.prune = v := by
  cases v with
  | array items => cases hv
  | object members => cases hv
  | _ => rfl

section Dense

theorem dense_array (items : List Json) :
    (Json.array items).Dense ↔
      (items.Pairwise fun a b => a.Leafless → b.Leafless) ∧ ∀ v ∈ items, v.Dense := by
  simp [Dense]

theorem dense_object (members : Members) :
    (Json.object members).Dense ↔ ∀ m ∈ members, m.2.Dense := by
  simp [Dense]

theorem dense_leaf {v : Json} (hv : v.isLeaf = true) : v.Dense := by
  refine (every_leaf hv).mpr ?_
  rintro items rfl
  cases hv

/-- Among leafless items nothing comes before an item that is not leafless. -/
theorem dense_of_leafless {v : Json} (h : v.Leafless) : v.Dense := by
  induction v using induction_on_children with
  | leaf v hv =>
      exact dense_leaf hv
  | array items ih =>
      rw [leafless_array] at h
      refine (dense_array items).mpr ⟨?_, fun v hv => ih v hv (h v hv)⟩
      exact List.pairwise_of_forall_mem_list fun _ _ b hb _ => h b hb
  | object members ih =>
      rw [leafless_object] at h
      exact (dense_object members).mpr fun m hm => ih m hm (h m hm)

end Dense

section Prefix

variable (p : Json → Prop) [DecidablePred p]

/-- Elements with a property come last exactly if the first positions, as many as there are elements without it, hold
elements without it. -/
theorem pairwise_iff_prefix (items : List Json) :
    (items.Pairwise fun a b => p a → p b) ↔
      ∀ i < items.countP (¬ p ·), ∃ v, items[i]? = some v ∧ ¬ p v := by
  induction items with
  | nil =>
      simp
  | cons v rest ih =>
      rw [List.pairwise_cons]
      by_cases hv : p v
      · -- The first element has the property, so that all others must have it.
        have hcount : (v :: rest).countP (¬ p ·) = rest.countP (¬ p ·) := by
          simp [hv]
        rw [hcount]
        constructor
        · rintro ⟨hall, _⟩ i hi
          have hzero : rest.countP (¬ p ·) = 0 := by
            rw [List.countP_eq_zero]
            intro b hb
            simpa using hall b hb hv
          omega
        · intro h
          have hzero : rest.countP (¬ p ·) = 0 := by
            by_contra hpos
            obtain ⟨w, hw, hnot⟩ := h 0 (by omega)
            obtain rfl : v = w := by
              simpa using hw
            exact hnot hv
          have hall : ∀ b ∈ rest, p b := by
            simpa [List.countP_eq_zero] using hzero
          exact ⟨fun b hb _ => hall b hb, List.pairwise_of_forall_mem_list fun _ _ b hb _ => hall b hb⟩
      · have hcount : (v :: rest).countP (¬ p ·) = rest.countP (¬ p ·) + 1 := by
          simp [hv]
        rw [hcount, ih]
        constructor
        · rintro ⟨_, h⟩ i hi
          cases i with
          | zero => exact ⟨v, rfl, hv⟩
          | succ i => exact h i (by omega)
        · intro h
          refine ⟨fun b _ hp => absurd hp hv, fun i hi => ?_⟩
          exact h (i + 1) (by omega)

/-- If the elements with a property come last, the others are the first ones. -/
theorem filter_eq_take (items : List Json) (h : items.Pairwise fun a b => p a → p b) :
    items.filter (¬ p ·) = items.take (items.countP (¬ p ·)) := by
  induction items with
  | nil =>
      rfl
  | cons v rest ih =>
      obtain ⟨hall, hrest⟩ := List.pairwise_cons.mp h
      by_cases hv : p v
      · have hnone : (v :: rest).filter (¬ p ·) = [] := by
          rw [List.filter_eq_nil_iff]
          intro b hb
          rcases List.mem_cons.mp hb with rfl | hb
          · simpa using hv
          · simpa using hall b hb hv
        rw [List.countP_eq_length_filter, hnone]
        rfl
      · have hfilter : (v :: rest).filter (¬ p ·) = v :: rest.filter (¬ p ·) := by
          simp [hv]
        have hcount : (v :: rest).countP (¬ p ·) = rest.countP (¬ p ·) + 1 := by
          simp [hv]
        rw [hfilter, hcount, List.take_succ_cons, ih hrest]

end Prefix

/-! ## Expansion of the leaves -/

section Expansion

open Flat Traversal

/-- Steps that succeed where a condition holds and lack leaves elsewhere make up a traversal of that kind. -/
theorem mapM_of_condition {α β : Type} (f : α → Except Error β) (g : α → β) (p : α → Prop) (xs : List α)
    (hok : ∀ x ∈ xs, p x → f x = .ok (g x))
    (herror : ∀ x ∈ xs, ¬ p x → ∃ place, f x = .error (.emptyFlat place)) :
    ((∀ x ∈ xs, p x) → xs.mapM f = .ok (xs.map g)) ∧
      (¬ (∀ x ∈ xs, p x) → ∃ place, xs.mapM f = .error (.emptyFlat place)) := by
  constructor
  · intro hall
    exact mapM_eq_map f g xs fun x hx => hok x hx (hall x hx)
  · intro hnot
    simp only [not_forall] at hnot
    obtain ⟨x, hx, hpx⟩ := hnot
    obtain ⟨place, hplace⟩ := herror x hx hpx
    obtain ⟨y, hy, e, hfy, hmapM⟩ := mapM_fails f xs ⟨x, hx, _, hplace⟩
    by_cases hpy : p y
    · rw [hok y hy hpy] at hfy
      cases hfy
    · obtain ⟨place', hplace'⟩ := herror y hy hpy
      rw [hplace'] at hfy
      cases hfy
      exact ⟨place', hmapM⟩

theorem itemGroups_fst (items : List Json) :
    (itemGroups 0 items).map (·.1) = List.range items.length := by
  simp [itemGroups, Function.comp_def, List.range_eq_range']

theorem mem_itemGroups (items : List Json) (i : Nat) (flat : Flat) :
    (i, flat) ∈ itemGroups 0 items ↔ ∃ v, items[i]? = some v ∧ flat = v.leaves := by
  simp only [itemGroups, List.mem_map, Prod.exists, Prod.mk.injEq, List.mem_zipIdx_iff_getElem?]
  constructor
  · rintro ⟨v, j, hv, rfl, rfl⟩
    exact ⟨v, hv, rfl⟩
  · rintro ⟨v, hv, rfl⟩
    exact ⟨v, i, hv, rfl, rfl⟩

/-- The indices that the leaves of items start with. -/
def headIndices (items : List Json) : List Nat :=
  repeated ((itemGroups 0 items).map fun (i, flat) => (i, flat.length))

theorem mem_headIndices (items : List Json) (i : Nat) :
    i ∈ headIndices items ↔ ∃ v, items[i]? = some v ∧ ¬ v.Leafless := by
  simp only [headIndices, mem_repeated, List.mem_map, Prod.exists, Prod.mk.injEq, mem_itemGroups]
  constructor
  · rintro ⟨n, ⟨j, flat, ⟨v, hv, rfl⟩, rfl, rfl⟩, hn⟩
    refine ⟨v, hv, ?_⟩
    rw [← leaves_eq_nil_iff, ← List.length_eq_zero_iff]
    exact hn
  · rintro ⟨v, hv, hfull⟩
    rw [← leaves_eq_nil_iff, ← List.length_eq_zero_iff] at hfull
    exact ⟨_, ⟨i, _, ⟨v, hv, rfl⟩, rfl, rfl⟩, hfull⟩

/-- There are as many of them as items that are not leafless. -/
theorem length_eraseDups_headIndices (items : List Json) :
    (headIndices items).eraseDups.length = items.countP fun v => ¬ v.Leafless := by
  have hdistinct : (((itemGroups 0 items).map fun (i, flat) => (i, flat.length)).map (·.1)).Nodup := by
    simp only [List.map_map, Function.comp_def]
    rw [itemGroups_fst]
    exact List.nodup_range
  have hfull : (fun v : Json => decide (¬ v.Leafless)) = fun v => v.leaves.length != 0 := by
    funext v
    by_cases h : v.leaves = [] <;> simp [← leaves_eq_nil_iff, h]
  rw [headIndices, eraseDups_repeated _ hdistinct, List.length_map, ← List.countP_eq_length_filter, hfull]
  calc
    _ = (items.zipIdx.map (·.1)).countP fun v => v.leaves.length != 0 := by
      simp only [itemGroups, List.map_map, List.countP_map, Function.comp_def]
    _ = items.countP fun v => v.leaves.length != 0 := by
      rw [List.zipIdx_map_fst]

/-- The function gives the pruned value for the leaves of a dense value, and lacks leaves otherwise. -/
def RebuiltBy (build : Path → Flat → Except Error Json) (v : Json) : Prop :=
  ∀ place,
    (v.Dense → build place v.leaves = .ok v.prune) ∧
    (¬ v.Dense → ∃ place', build place v.leaves = .error (.emptyFlat place'))

variable {deeper : Path → Flat → Except Error Json}

/-- The names that the leaves of members start with, each once, are those of the members that are not leafless. -/
theorem eraseDups_headNames (members : Members) (hdistinct : (Members.names members).Nodup) :
    (repeated ((memberGroups members).map fun (name, flat) => (name, flat.length))).eraseDups =
      (members.filter fun m => ¬ m.2.Leafless).map (·.1) := by
  have hnames : ((memberGroups members).map fun (name, flat) => (name, flat.length)).map (·.1) =
      Members.names members := by
    simp [memberGroups, Members.names, Function.comp_def]
  rw [eraseDups_repeated _ (by rw [hnames]; exact hdistinct), memberGroups, List.map_map, List.filter_map,
    List.map_map]
  congr 1
  refine List.filter_congr fun m _ => ?_
  by_cases h : m.2.leaves = [] <;> simp [← leaves_eq_nil_iff, h]

theorem below_leaves_object {members : Members} (hdistinct : (Members.names members).Nodup)
    {m : String × Json} (hm : m ∈ members) :
    below (.key m.1) (Json.object members).leaves = m.2.leaves := by
  rw [leaves_object]
  refine below_gather ?_ (List.mem_map.mpr ⟨(m.1, m.2.leaves), List.mem_map.mpr ⟨m, hm, rfl⟩, rfl⟩)
  have hsegments : ((memberGroups members).map fun (name, flat) => (Segment.key name, flat)).map (·.1) =
      (Members.names members).map Segment.key := by
    simp [memberGroups, Members.names, Function.comp_def]
  rw [hsegments]
  exact hdistinct.map fun a b h => Segment.key.inj h

theorem below_leaves_array {items : List Json} {i : Nat} {v : Json} (hv : items[i]? = some v) :
    below (.index i) (Json.array items).leaves = v.leaves := by
  rw [leaves_array]
  refine below_gather ?_ (List.mem_map.mpr ⟨(i, v.leaves), (mem_itemGroups items i _).mpr ⟨v, hv, rfl⟩, rfl⟩)
  have hsegments : ((itemGroups 0 items).map fun (i, flat) => (Segment.index i, flat)).map (·.1) =
      (List.range items.length).map Segment.index := by
    rw [← itemGroups_fst, List.map_map, List.map_map]
    rfl
  rw [hsegments]
  exact List.nodup_range.map fun a b h => Segment.index.inj h

/-- Children that are leafless do not matter to density. -/
theorem forall_dense_iff_filter {α : Type} (value : α → Json) (xs : List α) :
    (∀ x ∈ xs, (value x).Dense) ↔ ∀ x ∈ xs.filter (fun x => ¬ (value x).Leafless), (value x).Dense := by
  refine ⟨fun h x hx => h x (List.mem_of_mem_filter hx), fun h x hx => ?_⟩
  by_cases hl : (value x).Leafless
  · exact dense_of_leafless hl
  · exact h x (List.mem_filter.mpr ⟨hx, by simpa using hl⟩)

/-- An object is rebuilt from its leaves if its members are. -/
theorem rebuiltBy_object {members : Members}
    (hdistinct : (Members.names members).Nodup) (hfull : ¬ (Json.object members).Leafless)
    (hmembers : ∀ m ∈ members, ¬ m.2.Leafless → RebuiltBy deeper m.2) :
    RebuiltBy (expandLevel deeper) (.object members) := by
  intro place
  have hne : (Json.object members).leaves ≠ [] := by
    rwa [ne_eq, leaves_eq_nil_iff]
  have hheads := heads?_gather (memberGroups members)
  rw [← leaves_object] at hheads
  let step (m : String × Json) : Except Error (String × Json) := do
    let value ← deeper (place ++ [.key m.1]) (below (.key m.1) (Json.object members).leaves)
    return (m.1, value)
  have hlevel : expandLevel deeper place (Json.object members).leaves = (do
      let kept ← (members.filter fun m => ¬ m.2.Leafless).mapM step
      return .object kept) := by
    rw [expandLevel_keyed deeper place hne hheads, eraseDups_headNames members hdistinct, List.mapM_map]
    rfl
  have hstep : ∀ m ∈ members.filter (fun m => ¬ m.2.Leafless),
      step m = (do return (m.1, ← deeper (place ++ [.key m.1]) m.2.leaves)) ∧ RebuiltBy deeper m.2 := by
    intro m hm
    obtain ⟨hmem, hm⟩ := List.mem_filter.mp hm
    exact ⟨by simp only [step, below_leaves_object hdistinct hmem], hmembers m hmem (by simpa using hm)⟩
  obtain ⟨hok, herror⟩ := mapM_of_condition step (fun m => (m.1, m.2.prune)) (fun m => m.2.Dense)
    (members.filter fun m => ¬ m.2.Leafless)
    (by
      intro m hm hd
      rw [(hstep m hm).1, ((hstep m hm).2 _).1 hd]
      rfl)
    (by
      intro m hm hd
      obtain ⟨place', h⟩ := ((hstep m hm).2 (place ++ [.key m.1])).2 hd
      rw [(hstep m hm).1, h]
      exact ⟨place', rfl⟩)
  rw [hlevel, dense_object, forall_dense_iff_filter]
  constructor
  · intro h
    rw [hok h, prune_object, pruneMembers_eq]
    rfl
  · intro h
    obtain ⟨place', h⟩ := herror h
    rw [h]
    exact ⟨place', rfl⟩

/-- If the leafless items come last, the others keep their indices. -/
theorem getElem?_of_mem_zipIdx_filter {items : List Json}
    (hpairwise : items.Pairwise fun a b => a.Leafless → b.Leafless) {v : Json} {i : Nat}
    (h : (v, i) ∈ (items.filter fun v => ¬ v.Leafless).zipIdx) :
    items[i]? = some v := by
  rw [filter_eq_take Leafless items hpairwise, List.mem_zipIdx_iff_getElem?] at h
  have hlt : i < items.countP fun v => ¬ v.Leafless := by
    by_contra hge
    rw [List.getElem?_eq_none (by rw [List.length_take]; omega)] at h
    cases h
  rwa [List.getElem?_take_of_lt hlt] at h

/-- An array is rebuilt from its leaves if its items are. -/
theorem rebuiltBy_array {items : List Json}
    (hfull : ¬ (Json.array items).Leafless)
    (hitems : ∀ v ∈ items, ¬ v.Leafless → RebuiltBy deeper v) :
    RebuiltBy (expandLevel deeper) (.array items) := by
  intro place
  have hne : (Json.array items).leaves ≠ [] := by
    rwa [ne_eq, leaves_eq_nil_iff]
  have hheads : headIndices? (Json.array items).leaves = some (headIndices items) := by
    rw [leaves_array]
    exact headIndices?_gather (itemGroups 0 items)
  have hordered : firstGap? (headIndices items).eraseDups.length (headIndices items) = none ↔
      items.Pairwise fun a b => a.Leafless → b.Leafless := by
    rw [firstGap?_eq_none_iff, length_eraseDups_headIndices, pairwise_iff_prefix]
    simp only [mem_headIndices]
  by_cases hpairwise : items.Pairwise fun a b => a.Leafless → b.Leafless
  · -- No index is missing: the items with leaves are the first ones.
    let step (entry : Json × Nat) : Except Error Json :=
      deeper (place ++ [.index entry.2]) (below (.index entry.2) (Json.array items).leaves)
    have hrange : List.range (headIndices items).eraseDups.length =
        (items.filter fun v => ¬ v.Leafless).zipIdx.map (·.2) := by
      rw [length_eraseDups_headIndices, List.countP_eq_length_filter, List.zipIdx_map_snd, List.range_eq_range']
    have hlevel : expandLevel deeper place (Json.array items).leaves = (do
        let kept ← (items.filter fun v => ¬ v.Leafless).zipIdx.mapM step
        return .array kept) := by
      rw [expandLevel_indexed deeper place hne hheads (hordered.mpr hpairwise), hrange, List.mapM_map]
      rfl
    have hstep : ∀ entry ∈ (items.filter fun v => ¬ v.Leafless).zipIdx,
        step entry = deeper (place ++ [.index entry.2]) entry.1.leaves ∧ RebuiltBy deeper entry.1 := by
      rintro ⟨v, i⟩ hentry
      obtain ⟨hmem, hv⟩ := List.mem_filter.mp (List.fst_mem_of_mem_zipIdx hentry)
      refine ⟨?_, hitems v hmem (by simpa using hv)⟩
      simp only [step, below_leaves_array (getElem?_of_mem_zipIdx_filter hpairwise hentry)]
    obtain ⟨hok, herror⟩ := mapM_of_condition step (fun entry => entry.1.prune) (fun entry => entry.1.Dense)
      (items.filter fun v => ¬ v.Leafless).zipIdx
      (by
        intro entry hentry hd
        rw [(hstep entry hentry).1, ((hstep entry hentry).2 _).1 hd])
      (by
        intro entry hentry hd
        rw [(hstep entry hentry).1]
        exact ((hstep entry hentry).2 _).2 hd)
    rw [hlevel, dense_array, and_iff_right hpairwise, forall_dense_iff_filter (fun v => v), ← forall_mem_zipIdx _ 0]
    constructor
    · intro h
      rw [hok h, map_zipIdx_fst, prune_array, pruneItems_eq]
      rfl
    · intro h
      obtain ⟨place', h⟩ := herror h
      rw [h]
      exact ⟨place', rfl⟩
  · -- Some index is missing, whatever the items are.
    constructor
    · intro hd
      exact absurd ((dense_array items).mp hd).1 hpairwise
    · intro _
      cases hgap : firstGap? (headIndices items).eraseDups.length (headIndices items) with
      | none => exact absurd (hordered.mp hgap) hpairwise
      | some gap => exact ⟨_, expandLevel_gap deeper place hne hheads hgap⟩

/-- **The leaves of a value** expand to its pruned form if it is dense and not leafless, whatever the depth allowed
beyond that of the leaves. -/
theorem rebuiltBy_expandWithin (v : Json) (hdistinct : v.Distinct) (htyped : v.Typed) (hfull : ¬ v.Leafless)
    (depth : Nat) (hdepth : v.leaves.depth ≤ depth) :
    RebuiltBy (expandWithin depth) v := by
  induction v using induction_on_children generalizing depth with
  | leaf v hv =>
      obtain ⟨s, rfl⟩ := (typed_leaf hv).mp htyped
      intro place
      refine ⟨fun _ => ?_, fun h => absurd (dense_leaf hv) h⟩
      rw [leaves_scalar, prune_leaf hv]
      cases depth <;> rfl
  | array items ih =>
      have hne : (Json.array items).leaves ≠ [] := by
        rwa [ne_eq, leaves_eq_nil_iff]
      rw [leaves_array] at hne hdepth
      have hpos := depth_gather_pos hne
      obtain ⟨d, rfl⟩ : ∃ d, depth = d + 1 := ⟨depth - 1, by omega⟩
      refine rebuiltBy_array hfull fun v hv hl => ?_
      refine ih v hv ((distinct_array items).mp hdistinct v hv) ((typed_array items).mp htyped v hv) hl d ?_
      obtain ⟨i, hi⟩ := List.mem_iff_getElem?.mp hv
      exact (depth_gather_le_iff _ d).mp hdepth (.index i, v.leaves)
        (List.mem_map.mpr ⟨(i, v.leaves), (mem_itemGroups items i _).mpr ⟨v, hi, rfl⟩, rfl⟩)
  | object members ih =>
      have hne : (Json.object members).leaves ≠ [] := by
        rwa [ne_eq, leaves_eq_nil_iff]
      rw [leaves_object] at hne hdepth
      have hpos := depth_gather_pos hne
      obtain ⟨d, rfl⟩ : ∃ d, depth = d + 1 := ⟨depth - 1, by omega⟩
      obtain ⟨hnames, hparts⟩ := (distinct_object members).mp hdistinct
      refine rebuiltBy_object hnames hfull fun m hm hl => ?_
      refine ih m hm (hparts m hm) ((typed_object members).mp htyped m hm) hl d ?_
      exact (depth_gather_le_iff _ d).mp hdepth (.key m.1, m.2.leaves)
        (List.mem_map.mpr ⟨(m.1, m.2.leaves), List.mem_map.mpr ⟨m, hm, rfl⟩, rfl⟩)

end Expansion

/-! ## Values without empty containers -/

section NoEmptyContainer

theorem noEmptyContainer_array (items : List Json) :
    (Json.array items).NoEmptyContainer ↔ items ≠ [] ∧ ∀ v ∈ items, v.NoEmptyContainer := by
  simp [NoEmptyContainer]

theorem noEmptyContainer_object (members : Members) :
    (Json.object members).NoEmptyContainer ↔ members ≠ [] ∧ ∀ m ∈ members, m.2.NoEmptyContainer := by
  simp [NoEmptyContainer]

theorem noEmptyContainer_leaf {v : Json} (hv : v.isLeaf = true) : v.NoEmptyContainer := by
  refine (every_leaf hv).mpr ⟨?_, ?_⟩ <;> rintro rfl <;> cases hv

/-- Filtering and mapping leave a list as it is exactly if they keep every element and leave it as it is. -/
theorem map_filter_eq_self_iff {α : Type} (f : α → α) (p : α → Bool) (xs : List α) :
    (xs.filter p).map f = xs ↔ ∀ x ∈ xs, p x = true ∧ f x = x := by
  constructor
  · intro h
    have hlength : (xs.filter p).length = xs.length := by
      rw [← List.length_map (f := f), h]
    have hkept := List.length_filter_eq_length_iff.mp hlength
    rw [List.filter_eq_self.mpr hkept] at h
    have hsame : xs.map f = xs.map id := by
      rw [h, List.map_id]
    exact fun x hx => ⟨hkept x hx, List.map_inj_left.mp hsame x hx⟩
  · intro h
    rw [List.filter_eq_self.mpr fun x hx => (h x hx).1, List.map_congr_left fun x hx => (h x hx).2, List.map_id']

theorem prune_array_eq_self_iff (items : List Json) :
    (Json.array items).prune = .array items ↔ ∀ v ∈ items, ¬ v.Leafless ∧ v.prune = v := by
  rw [prune_array, pruneItems_eq, Json.array.injEq, map_filter_eq_self_iff]
  simp only [decide_eq_true_eq]

theorem prune_object_eq_self_iff (members : Members) :
    (Json.object members).prune = .object members ↔ ∀ m ∈ members, ¬ m.2.Leafless ∧ m.2.prune = m.2 := by
  rw [prune_object, pruneMembers_eq, Json.object.injEq, map_filter_eq_self_iff]
  simp only [decide_eq_true_eq, Prod.ext_iff, true_and]

/-- A value of scalars has no empty container exactly if it is not leafless and pruning leaves it as it is. -/
theorem noEmptyContainer_iff {v : Json} (htyped : v.Typed) :
    v.NoEmptyContainer ↔ ¬ v.Leafless ∧ v.prune = v := by
  induction v using induction_on_children with
  | leaf v hv =>
      obtain ⟨s, rfl⟩ := (typed_leaf hv).mp htyped
      exact iff_of_true (noEmptyContainer_leaf hv) ⟨not_leafless_scalar s, prune_leaf hv⟩
  | array items ih =>
      rw [typed_array] at htyped
      rw [noEmptyContainer_array, leafless_array, prune_array_eq_self_iff,
        forall₂_congr fun v hv => ih v hv (htyped v hv)]
      refine and_congr_left fun hall => ?_
      constructor
      · intro hne hleafless
        obtain ⟨v, hv⟩ := List.exists_mem_of_ne_nil items hne
        exact (hall v hv).1 (hleafless v hv)
      · rintro hnot rfl
        exact hnot (by simp)
  | object members ih =>
      rw [typed_object] at htyped
      rw [noEmptyContainer_object, leafless_object, prune_object_eq_self_iff,
        forall₂_congr fun m hm => ih m hm (htyped m hm)]
      refine and_congr_left fun hall => ?_
      constructor
      · intro hne hleafless
        obtain ⟨m, hm⟩ := List.exists_mem_of_ne_nil members hne
        exact (hall m hm).1 (hleafless m hm)
      · rintro hnot rfl
        exact hnot (by simp)

/-- A value of scalars without empty containers has no leafless part, so that nothing is out of order. -/
theorem dense_of_noEmptyContainer {v : Json} (htyped : v.Typed) (h : v.NoEmptyContainer) : v.Dense := by
  induction v using induction_on_children with
  | leaf v hv =>
      exact dense_leaf hv
  | array items ih =>
      rw [typed_array] at htyped
      obtain ⟨_, hitems⟩ := (noEmptyContainer_array items).mp h
      refine (dense_array items).mpr ⟨?_, fun v hv => ih v hv (htyped v hv) (hitems v hv)⟩
      refine List.pairwise_of_forall_mem_list fun a ha _ _ hl => ?_
      exact absurd hl ((noEmptyContainer_iff (htyped a ha)).mp (hitems a ha)).1
  | object members ih =>
      rw [typed_object] at htyped
      obtain ⟨_, hmembers⟩ := (noEmptyContainer_object members).mp h
      exact (dense_object members).mpr fun m hm => ih m hm (htyped m hm) (hmembers m hm)

end NoEmptyContainer

theorem expand_leaves (v : Json) (hdistinct : v.Distinct) (htyped : v.Typed) :
    (¬ v.Leafless ∧ v.Dense ∧ v.leaves.expand = .ok v.prune) ∨
      (¬ (¬ v.Leafless ∧ v.Dense) ∧ ∃ place, v.leaves.expand = .error (.emptyFlat place)) := by
  by_cases hl : v.Leafless
  · refine Or.inr ⟨fun h => h.1 hl, [], ?_⟩
    rw [(leaves_eq_nil_iff v).mpr hl]
    rfl
  · have hbuilt := rebuiltBy_expandWithin v hdistinct htyped hl v.leaves.depth (Nat.le_refl _) []
    by_cases hd : v.Dense
    · exact Or.inl ⟨hl, hd, hbuilt.1 hd⟩
    · exact Or.inr ⟨fun h => hd h.2, hbuilt.2 hd⟩

theorem exists_part_scalar_iff (v : Json) : (∃ s : Scalar, Part s.toJson v) ↔ ¬ v.Leafless := by
  constructor
  · rintro ⟨s, hs⟩ h
    exact h _ hs s rfl
  · intro h
    simp only [Leafless, Every, not_forall, not_not] at h
    obtain ⟨w, hw, s, rfl⟩ := h
    exact ⟨s, hw⟩

/-- **Expansion inverts the flat view** up to leafless parts.  The flat view of a value of scalars expands exactly if
some part is a scalar and no array has a leafless item before another one; the result is the value without its
leafless parts, which is the value itself exactly if no container is empty.  In all other cases leaves are missing. -/
theorem expand_flatten (v : Json) (hdistinct : v.Distinct) (htyped : v.Typed) :
    ∃ flat, v.flatten = .ok flat ∧
      (flat.expand = .ok v ↔ v.NoEmptyContainer) ∧
      ((∃ w, flat.expand = .ok w) ↔ (∃ s : Scalar, Part s.toJson v) ∧ v.Dense) ∧
      (∀ w, flat.expand = .ok w → w = v.prune) ∧
      (∀ e, flat.expand = .error e → ∃ place, e = .emptyFlat place) := by
  refine ⟨v.leaves, (flatten_eq_ok_iff v _).mpr ⟨htyped, rfl⟩, ?_⟩
  rw [exists_part_scalar_iff]
  rcases expand_leaves v hdistinct htyped with ⟨hl, hd, hok⟩ | ⟨hnot, place, herror⟩
  · rw [hok]
    refine ⟨?_, iff_of_true ⟨_, rfl⟩ ⟨hl, hd⟩, ?_, ?_⟩
    · rw [noEmptyContainer_iff htyped, Except.ok.injEq, and_iff_right hl]
    · intro w hw
      exact (Except.ok.inj hw).symm
    · intro e he
      cases he
  · rw [herror]
    refine ⟨iff_of_false (by simp) ?_, iff_of_false (by simp) hnot, ?_, ?_⟩
    · intro h
      exact hnot ⟨((noEmptyContainer_iff htyped).mp h).1, dense_of_noEmptyContainer htyped h⟩
    · intro w hw
      cases hw
    · intro e he
      cases he
      exact ⟨place, rfl⟩

/-- An empty array behind the only tag is lost. -/
theorem expand_flatten_tags :
    let tags : Json := .array [.string "sf", .array []]
    tags.Distinct ∧ tags.Typed ∧
      ∃ flat, tags.flatten = .ok flat ∧ flat.expand ≠ .ok tags ∧ flat.expand = .ok (.array [.string "sf"]) := by
  intro tags
  have hdistinct : tags.Distinct := by
    simp only [tags, distinct_array, List.forall_mem_cons]
    exact ⟨distinct_leaf rfl, by simp, by simp⟩
  have htyped : tags.Typed := by
    simp only [tags, typed_array, List.forall_mem_cons]
    exact ⟨(typed_leaf rfl).mpr ⟨.str "sf", rfl⟩, by simp, by simp⟩
  obtain ⟨flat, hflat, hsame, hexists, hprune, _⟩ := expand_flatten tags hdistinct htyped
  have hdense : tags.Dense := by
    simp only [tags, dense_array, List.forall_mem_cons]
    exact ⟨by decide, dense_leaf rfl, by simp, by simp⟩
  have hpart : Part (Scalar.str "sf").toJson tags :=
    Relation.ReflTransGen.single (Child.item (List.mem_cons_self ..))
  obtain ⟨w, hw⟩ := hexists.mpr ⟨⟨_, hpart⟩, hdense⟩
  refine ⟨hdistinct, htyped, flat, hflat, ?_, ?_⟩
  · rw [ne_eq, hsame]
    simp [tags, noEmptyContainer_array]
  · rw [hw, hprune w hw]
    rfl

end Json
end RecordSearch
