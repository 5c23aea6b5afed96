import RecordSearch.Json.Expect
import RecordSearch.Json.Shape
import RecordSearch.Proofs.Traversal

/-!
# Taking the members of an object

A shape takes the members of an object one after the other; each changes the result by its slot.

* `takeMembers_cons`: one step, when the slot of a member and what it stores are known; `takeMembers_cons_eq_ok_iff`,
  `takeItems_cons_eq_ok_iff`: how one step succeeds.
* `takeMembers_append`: the members of a list may be taken in two parts.
* `Slot.Keeps`, `takeMembers_keeps`: what every slot keeps holds of the whole result; only the slots of members that
  are there matter.
* `Members.pick`, `takeMembers_pick`: what one slot alone writes, when members are picked by their names.
-/

namespace RecordSearch

/-- What holds of a result holds also of the result that a slot changes. -/
def Slot.Keeps {σ : Type} (slot : Slot σ) (p : σ → Prop) : Prop :=
  ∀ value before after, slot.assign value before = .ok after → p before → p after

theorem Slot.keeps_of {σ α : Type} {p : σ → Prop} (name : String) {expect : Json → Except Fault α} {store : α → σ → σ}
    (h : ∀ value a d, expect value = .ok a → p d → p (store a d)) : (Slot.of name expect store).Keeps p := by
  intro value before after hassign hbefore
  obtain ⟨a, ha, rfl⟩ := (Traversal.map_eq_ok_iff _ _ _).mp hassign
  exact h value a before ha hbefore

theorem Slot.assign_of {σ α : Type} (name : String) {expect : Json → Except Fault α} (store : α → σ → σ) {value : Json}
    {a : α} (h : expect value = .ok a) (result : σ) :
    (Slot.of name expect store).assign value result = .ok (store a result) :=
  congrArg (Except.map fun a => store a result) h

/-- The members of these names, in the order of the names. -/
def Members.pick (names : List String) (members : Members) : Members :=
  names.filterMap fun name => (get? name members).map fun value => (name, value)

namespace Members

theorem pick_append (first second : List String) (members : Members) :
    pick (first ++ second) members = pick first members ++ pick second members :=
  List.filterMap_append

theorem pick_cons (name : String) (others : List String) (members : Members) :
    pick (name :: others) members =
      ((get? name members).map fun value => (name, value)).toList ++ pick others members := by
  rw [pick, List.filterMap_cons]
  cases get? name members <;> rfl

theorem mem_of_mem_names_pick {names : List String} {members : Members} {name : String}
    (h : name ∈ Members.names (pick names members)) : name ∈ names := by
  simp only [Members.names, pick, List.mem_map, List.mem_filterMap, Option.map_eq_some_iff] at h
  obtain ⟨_, ⟨_, hname, _, _, rfl⟩, rfl⟩ := h
  exact hname

end Members

namespace Shape

open Traversal

variable {σ : Type} {shape : Shape σ}

theorem takeMembers_nil (result : σ) : shape.takeMembers [] result = .ok result :=
  rfl

theorem takeMembers_step (name : String) (value : Json) (rest : Members) (result : σ) :
    shape.takeMembers ((name, value) :: rest) result =
      match shape.slot? name with
      | none => .error ((Fault.ofMisfit (shape.unknownMember name)).under (.member name))
      | some slot =>
          (slot.assign value result).mapError (Fault.under (.member name)) >>= shape.takeMembers rest :=
  rfl

theorem takeMembers_cons {name : String} {slot : Slot σ} {value : Json} {result next : σ} (rest : Members)
    (hslot : shape.slot? name = some slot) (hassign : slot.assign value result = .ok next) :
    shape.takeMembers ((name, value) :: rest) result = shape.takeMembers rest next := by
  rw [takeMembers_step, hslot]
  simp only [hassign]
  rfl

theorem takeMembers_cons_eq_ok_iff (name : String) (value : Json) (rest : Members) (start result : σ) :
    shape.takeMembers ((name, value) :: rest) start = .ok result ↔ ∃ slot next, shape.slot? name = some slot ∧
      slot.assign value start = .ok next ∧ shape.takeMembers rest next = .ok result := by
  constructor
  · intro h
    rw [takeMembers_step] at h
    split at h
    · cases h
    · rename_i slot hslot
      obtain ⟨next, hnext, hrest⟩ := (bind_eq_ok_iff _ _ _).mp h
      exact ⟨slot, next, hslot, (mapError_eq_ok_iff _ _ _).mp hnext, hrest⟩
  · rintro ⟨slot, next, hslot, hnext, hrest⟩
    rw [takeMembers_cons rest hslot hnext, hrest]

theorem takeItems_cons_eq_ok_iff (slot : Slot σ) (slots : List (Slot σ)) (index count : Nat) (value : Json)
    (rest : List Json) (start result : σ) : takeItems (slot :: slots) index count (value :: rest) start = .ok result ↔
      ∃ next, slot.assign value start = .ok next ∧ takeItems slots (index + 1) count rest next = .ok result := by
  rw [takeItems, bind_eq_ok_iff]
  simp only [mapError_eq_ok_iff]

theorem takeMembers_append (first second : Members) (start : σ) :
    shape.takeMembers (first ++ second) start = (shape.takeMembers first start >>= shape.takeMembers second) := by
  induction first generalizing start with
  | nil =>
      rfl
  | cons m rest ih =>
      obtain ⟨name, value⟩ := m
      rw [List.cons_append, takeMembers_step, takeMembers_step]
      split
      · rfl
      · rw [bind_assoc]
        exact bind_congr fun next => ih next

/-- What the slots keep when they take the values of their members holds of the result. -/
theorem takeMembers_keeps_of_mem {p : σ → Prop} {members : Members}
    (hslots : ∀ slot ∈ shape.slots, ∀ value, (slot.name, value) ∈ members →
      ∀ before after, slot.assign value before = .ok after → p before → p after) {start result : σ}
    (hstart : p start) (h : shape.takeMembers members start = .ok result) : p result := by
  induction members generalizing start with
  | nil =>
      rw [takeMembers_nil] at h
      cases h
      exact hstart
  | cons m rest ih =>
      obtain ⟨name, value⟩ := m
      obtain ⟨slot, next, hslot, hnext, hrest⟩ := (takeMembers_cons_eq_ok_iff _ _ _ _ _).mp h
      have hname : slot.name = name := by
        simpa using List.find?_some hslot
      refine ih (fun other hother found hin => hslots other hother found (List.mem_cons_of_mem _ hin)) ?_ hrest
      refine hslots slot (List.mem_of_find?_eq_some hslot) value ?_ start next hnext hstart
      rw [hname]
      exact List.mem_cons_self

/-- What the slots of the members keep holds of the result. -/
theorem takeMembers_keeps_of_names {p : σ → Prop} {members : Members}
    (hslots : ∀ slot ∈ shape.slots, slot.name ∈ Members.names members → slot.Keeps p) {start result : σ}
    (hstart : p start) (h : shape.takeMembers members start = .ok result) : p result := by
  refine takeMembers_keeps_of_mem (fun slot hslot value hin before after => ?_) hstart h
  exact hslots slot hslot (List.mem_map.mpr ⟨_, hin, rfl⟩) value before after

theorem takeMembers_keeps {p : σ → Prop} (hslots : ∀ slot ∈ shape.slots, slot.Keeps p) {members : Members}
    {start result : σ} (hstart : p start) (h : shape.takeMembers members start = .ok result) : p result :=
  takeMembers_keeps_of_names (fun slot hslot _ => hslots slot hslot) hstart h

/-- What one slot alone writes comes from the member of its name, if there is one among the members that are taken. -/
theorem takeMembers_pick {β : Type} {f : σ → β} (name : String) {slot : Slot σ} (hslot : shape.slot? name = some slot)
    (hothers : ∀ other ∈ shape.slots, other.name ≠ name → ∀ b, other.Keeps fun result => f result = b)
    {names : List String} (hnodup : names.Nodup) (hname : name ∈ names) {members : Members} {start result : σ}
    (h : shape.takeMembers (Members.pick names members) start = .ok result) :
    (Members.get? name members = none ∧ f result = f start) ∨
      ∃ value before after, Members.get? name members = some value ∧ f before = f start ∧
        slot.assign value before = .ok after ∧ f result = f after := by
  have hkeeps : ∀ {others : List String} {start result : σ}, name ∉ others →
      shape.takeMembers (Members.pick others members) start = .ok result → f result = f start := by
    intro others start result hnotin htaken
    refine takeMembers_keeps_of_names (fun other hother hin => hothers other hother ?_ _) rfl htaken
    rintro rfl
    exact hnotin (Members.mem_of_mem_names_pick hin)
  obtain ⟨first, second, rfl⟩ := List.append_of_mem hname
  obtain ⟨-, hsecond, hdisjoint⟩ := List.nodup_append.mp hnodup
  have hfirst : name ∉ first := fun hin => hdisjoint _ hin _ List.mem_cons_self rfl
  rw [Members.pick_append, takeMembers_append] at h
  obtain ⟨before, hbefore, h⟩ := (bind_eq_ok_iff _ _ _).mp h
  rw [Members.pick_cons] at h
  cases hfound : Members.get? name members with
  | none =>
      rw [hfound] at h
      exact Or.inl ⟨rfl, (hkeeps (List.nodup_cons.mp hsecond).1 h).trans (hkeeps hfirst hbefore)⟩
  | some value =>
      rw [hfound] at h
      obtain ⟨found, after, hfoundSlot, hassign, hrest⟩ := (takeMembers_cons_eq_ok_iff _ _ _ _ _).mp h
      obtain rfl := Option.some.inj (hslot.symm.trans hfoundSlot)
      exact Or.inr ⟨value, before, after, rfl, hkeeps hfirst hbefore, hassign,
        hkeeps (List.nodup_cons.mp hsecond).1 hrest⟩

end Shape

namespace Expect

theorem text_eq_ok_iff (value : Json) (written : String) : text value = .ok written ↔ value = .string written := by
  cases value <;> simp [text, wrong]

theorem itemsFrom_any (index : Nat) (items : List Json) : itemsFrom any index items = .ok items := by
  induction items generalizing index with
  | nil =>
      rfl
  | cons v rest ih =>
      rw [itemsFrom, ih]
      rfl

end Expect
end RecordSearch
