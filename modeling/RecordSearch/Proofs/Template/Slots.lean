import RecordSearch.Template.Cache
import Mathlib.Data.List.Basic

/-!
# Slots of a cache

A slot keeps the text of the first rendering of its position.  This module tells, from the calls of a cache alone,
what each of them answers.

**Calls.**  `Call` is a look at a slot or a rendering, `run` a sequence of them on one cache.

**Reference.**  `answerAfter` is the answer to a call after the calls before it, for a cache of some size: `firstText`
is the first text rendered for a position that has a slot.

**Results.**
* `remembers_call`: what one call answers, and what the slots hold afterwards.
* `run_eq_answersAfter`: what a sequence of calls answers.
* `run_write_once`: every answer by its place in the sequence, and those for one position by the calls on it alone.
-/

namespace RecordSearch
namespace Cache

/-- A call of a cache. -/
inductive Call where
  | get (index : Nat)
  | getOrRender (index : Nat) (render : Unit → String)

/-- The position that a call is about. -/
def Call.index : Call → Nat
  | .get index => index
  | .getOrRender index _ => index

/-- The answer to a call: the text that is kept, or the text and whether it was rendered for this call. -/
inductive Answer where
  | kept (text : Option String)
  | shown (text : String) (rendered : Bool)
deriving DecidableEq, Repr

/-- The answer to a call, and the cache afterwards. -/
def call (cache : Cache) : Call → Answer × Cache
  | .get index => (.kept (cache.get? index), cache)
  | .getOrRender index render =>
      let cached := cache.getOrRender index render
      (.shown cached.text cached.computed, cached.cache)

/-- The answers to calls one after the other, and the cache afterwards. -/
def run (cache : Cache) : List Call → List Answer × Cache
  | [] => ([], cache)
  | call :: rest =>
      let (first, cache) := cache.call call
      let (others, cache) := cache.run rest
      (first :: others, cache)

/-- The text that a call renders for a position, if it is asked to render it. -/
def Call.text? (index : Nat) : Call → Option String
  | .get _ => none
  | .getOrRender other render => if other = index then some (render ()) else none

/-- The first text that calls render for a position; without a slot there is none to be kept. -/
def firstText (size index : Nat) (history : List Call) : Option String :=
  if index < size then history.findSome? (Call.text? index) else none

/-- The answer to a call after the calls of `history`. -/
def answerAfter (size : Nat) (history : List Call) : Call → Answer
  | .get index => .kept (firstText size index history)
  | .getOrRender index render =>
      match firstText size index history with
      | some text => .shown text false
      | none => .shown (render ()) true

/-- The answers to calls one after the other, after the calls of `history`. -/
def answersAfter (size : Nat) (history : List Call) : List Call → List Answer
  | [] => []
  | call :: rest => answerAfter size history call :: answersAfter size (history ++ [call]) rest

theorem answersAfter_cons (size : Nat) (history rest : List Call) (call : Call) :
    answersAfter size history (call :: rest) =
      answerAfter size history call :: answersAfter size (history ++ [call]) rest := rfl

/-- A cache of the size the slots of which hold the first texts of the calls. -/
structure Remembers (size : Nat) (history : List Call) (cache : Cache) : Prop where
  slots : cache.slots.length = size
  kept : ∀ index, cache.get? index = firstText size index history

section Steps

variable {size : Nat} {history : List Call} {cache : Cache}

theorem remembers_new (size : Nat) : Remembers size [] (new size) := by
  refine ⟨List.length_replicate, fun index => ?_⟩
  rw [get?_new, firstText, List.findSome?_nil, ite_self]

/-- One more call counts only where there is a slot without a text. -/
theorem firstText_append (size index : Nat) (history : List Call) (call : Call) :
    firstText size index (history ++ [call]) =
      (firstText size index history).or (if index < size then call.text? index else none) := by
  rw [firstText, firstText, List.findSome?_append]
  by_cases hslot : index < size
  · simp only [if_pos hslot, List.findSome?_cons, List.findSome?_nil]
    cases call.text? index <;> rfl
  · simp only [if_neg hslot, Option.or_none]

theorem remembers_call (h : Remembers size history cache) (c : Call) :
    (cache.call c).1 = answerAfter size history c ∧ Remembers size (history ++ [c]) (cache.call c).2 := by
  obtain ⟨hslots, hkept⟩ := h
  cases c with
  | get index =>
      refine ⟨congrArg Answer.kept (hkept index), hslots, fun other => ?_⟩
      rw [firstText_append, Call.text?, ite_self, Option.or_none]
      exact hkept other
  | getOrRender index render =>
      have htext := text_getOrRender cache index render
      have hcomputed := computed_getOrRender cache index render
      rw [hkept] at htext hcomputed
      refine ⟨?_, (length_getOrRender cache index render).trans hslots, fun other => ?_⟩
      · change Answer.shown (cache.getOrRender index render).text (cache.getOrRender index render).computed = _
        rw [htext, hcomputed, answerAfter]
        cases firstText size index history <;> rfl
      · change (cache.getOrRender index render).cache.get? other = _
        rw [get?_getOrRender, hslots, htext, firstText_append, Call.text?, hkept]
        by_cases hother : index = other
        · subst hother
          by_cases hslot : index < size
          · simp only [hslot, and_self, if_true]
            cases firstText size index history <;> rfl
          · simp only [hslot, and_false, if_false, Option.or_none]
        · simp only [hother, false_and, if_false, ite_self, Option.or_none]

theorem run_eq_answersAfter (h : Remembers size history cache) (calls : List Call) :
    (cache.run calls).1 = answersAfter size history calls ∧ Remembers size (history ++ calls) (cache.run calls).2 := by
  induction calls generalizing history cache with
  | nil =>
      rw [List.append_nil]
      exact ⟨rfl, h⟩
  | cons c rest ih =>
      obtain ⟨hfirst, hcache⟩ := remembers_call h c
      obtain ⟨hothers, hrest⟩ := ih hcache
      rw [List.append_assoc] at hrest
      refine ⟨?_, hrest⟩
      change (cache.call c).1 :: ((cache.call c).2.run rest).1 = _
      rw [hfirst, hothers, answersAfter_cons]

end Steps

/-! ## One position among others -/

section Positions

variable (size : Nat)

theorem getElem?_answersAfter (history calls : List Call) (k : Nat) :
    (answersAfter size history calls)[k]? = calls[k]?.map (answerAfter size (history ++ calls.take k)) := by
  induction calls generalizing history k with
  | nil => rfl
  | cons c rest ih =>
      cases k with
      | zero => simp [answersAfter_cons]
      | succ k => simp [answersAfter_cons, ih]

theorem text?_of_index_ne {index : Nat} {c : Call} (h : c.index ≠ index) : c.text? index = none := by
  cases c with
  | get other => rfl
  | getOrRender other render => exact if_neg h

/-- Calls on other positions do not count. -/
theorem firstText_filter (index : Nat) (history : List Call) :
    firstText size index (history.filter fun c => c.index = index) = firstText size index history := by
  have hfound : (history.filter fun c => c.index = index).findSome? (Call.text? index) =
      history.findSome? (Call.text? index) := by
    induction history with
    | nil => rfl
    | cons c rest ih =>
        by_cases hc : c.index = index
        · rw [List.filter_cons_of_pos (by simpa using hc), List.findSome?_cons, List.findSome?_cons, ih]
        · rw [List.filter_cons_of_neg (by simpa using hc), ih, List.findSome?_cons, text?_of_index_ne hc]
  rw [firstText, firstText, hfound]

theorem answerAfter_filter (history : List Call) (c : Call) :
    answerAfter size (history.filter fun other => other.index = c.index) c = answerAfter size history c := by
  cases c with
  | get index => rw [answerAfter, answerAfter, Call.index, firstText_filter]
  | getOrRender index render => rw [answerAfter, answerAfter, Call.index, firstText_filter]

/-- The answers to the calls on a position are those of a cache on which no other calls are made. -/
theorem answersAfter_filter (index : Nat) (history calls : List Call) :
    ((calls.zip (answersAfter size history calls)).filter fun p => p.1.index = index).map Prod.snd =
      answersAfter size (history.filter fun c => c.index = index) (calls.filter fun c => c.index = index) := by
  induction calls generalizing history with
  | nil => rfl
  | cons c rest ih =>
      rw [answersAfter_cons, List.zip_cons_cons]
      by_cases hc : c.index = index
      · subst hc
        rw [List.filter_cons_of_pos (by simp), List.filter_cons_of_pos (by simp), List.map_cons, ih, answersAfter_cons,
          answerAfter_filter, List.filter_append]
        simp
      · rw [List.filter_cons_of_neg (by simpa using hc), List.filter_cons_of_neg (by simpa using hc), ih,
          List.filter_append]
        simp [hc]

end Positions

/-- **A slot is written once, and for its own position only.**  A rendering is made where no text is kept, and answered
with the text of the first rendering of its position where there is a slot; a look at a slot writes nothing.  Without a
slot, every rendering is made and nothing is kept.  What is answered for one position depends on the calls on this
position alone. -/
theorem run_write_once (size : Nat) (calls : List Call) :
    (∀ k : Nat, ((new size).run calls).1[k]? = calls[k]?.map (answerAfter size (calls.take k))) ∧
    ∀ index, ((calls.zip ((new size).run calls).1).filter fun p => p.1.index = index).map Prod.snd =
      ((new size).run (calls.filter fun c => c.index = index)).1 := by
  have hrun : ∀ some : List Call, ((new size).run some).1 = answersAfter size [] some :=
    fun some => (run_eq_answersAfter (remembers_new size) some).1
  refine ⟨fun k => ?_, fun index => ?_⟩
  · rw [hrun, getElem?_answersAfter, List.nil_append]
  · rw [hrun, hrun, answersAfter_filter, List.filter_nil]

end Cache
end RecordSearch
