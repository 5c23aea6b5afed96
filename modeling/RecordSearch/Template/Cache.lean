/-!
# Rendered texts

A cache has one slot for every position of a list of records.  A slot is filled when its text is first asked for, and
keeps that text.
-/

namespace RecordSearch

/-- The slots of a cache, filled or not. -/
structure Cache where
  slots : List (Option String)
deriving DecidableEq, Repr

/-- A text, whether it was computed for this call, and the cache afterwards. -/
structure Cached where
  text : String
  computed : Bool
  cache : Cache

namespace Cache

/-- Empty slots for `size` positions. -/
def new (size : Nat) : Cache :=
  ⟨List.replicate size none⟩

/-- The text kept at a position. -/
def get? (cache : Cache) (index : Nat) : Option String :=
  cache.slots[index]?.join

/-- The text kept at a position, or else the computed one, which is kept if the position has a slot. -/
def getOrRender (cache : Cache) (index : Nat) (render : Unit → String) : Cached :=
  match cache.get? index with
  | some text => ⟨text, false, cache⟩
  | none =>
      let text := render ()
      ⟨text, true, ⟨cache.slots.set index (some text)⟩⟩

@[simp] theorem get?_new (size index : Nat) : (new size).get? index = none := by
  by_cases h : index < size <;> simp [new, get?, h]

section

variable (cache : Cache) (index : Nat) (render : Unit → String)

theorem text_getOrRender :
    (cache.getOrRender index render).text = (cache.get? index).getD (render ()) := by
  rw [getOrRender]
  split <;> simp_all

theorem computed_getOrRender : (cache.getOrRender index render).computed = (cache.get? index).isNone := by
  rw [getOrRender]
  split <;> simp_all

theorem length_getOrRender :
    (cache.getOrRender index render).cache.slots.length = cache.slots.length := by
  rw [getOrRender]
  split <;> simp

/-- The text is kept at its position if there is a slot, and the other positions keep what they have. -/
theorem get?_getOrRender (other : Nat) :
    (cache.getOrRender index render).cache.get? other =
      if index = other ∧ index < cache.slots.length then some (cache.getOrRender index render).text
      else cache.get? other := by
  cases hkept : cache.get? index with
  | some text =>
      have hsame : cache.getOrRender index render = ⟨text, false, cache⟩ := by
        rw [getOrRender, hkept]
      rw [hsame]
      split
      · rename_i h
        rw [← h.1, hkept]
      · rfl
  | none =>
      have hset : cache.getOrRender index render =
          ⟨render (), true, ⟨cache.slots.set index (some (render ()))⟩⟩ := by
        rw [getOrRender, hkept]
      rw [hset]
      by_cases hindex : index = other
      · subst hindex
        by_cases hslot : index < cache.slots.length
        · simp [get?, hslot]
        · simp [get?, hslot]
      · simp [get?, hindex]

end

end Cache
end RecordSearch
