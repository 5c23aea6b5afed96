import Mathlib.Data.List.Forall2

/-!
# Traversals that may fail

A traversal tries the elements of a list one after the other and ends at the first failure.

**Results.**
* `bind_eq_ok_iff`, `bind_eq_error_iff`, `map_eq_ok_iff`: when a step after another one succeeds, and how it fails.
* `mapM_eq_ok_iff`, `forM_eq_ok_iff`: a traversal succeeds exactly if every element does, and gives their results in
  order.
* `mapM_eq_error_iff`, `forM_eq_error_iff`: a traversal fails exactly as the first element that fails.
* `mapM_keyed_eq_ok_iff`, `mapM_pair_eq_ok_iff`: traversals that keep a key of each element, or the element itself.
* `mapM_range_eq_ok_iff`: traversals of numbers.
* `Agree`: two runs fail alike, or both succeed with related results; kept by every step.
-/

namespace RecordSearch
namespace Traversal

variable {α β ε : Type}

/-- A step after a first one succeeds exactly if both do. -/
theorem bind_eq_ok_iff (first : Except ε α) (second : α → Except ε β) (b : β) :
    first >>= second = .ok b ↔ ∃ a, first = .ok a ∧ second a = .ok b := by
  cases first with
  | error e =>
      constructor
      · intro h
        cases h
      · rintro ⟨a, h, _⟩
        cases h
  | ok a =>
      constructor
      · intro h
        exact ⟨a, rfl, h⟩
      · rintro ⟨a', ha, h⟩
        cases ha
        exact h

/-- A step after a first one fails as the first one, or as itself after a success. -/
theorem bind_eq_error_iff (first : Except ε α) (second : α → Except ε β) (e : ε) :
    first >>= second = .error e ↔
      first = .error e ∨ ∃ a, first = .ok a ∧ second a = .error e := by
  cases first with
  | error e' =>
      constructor
      · intro h
        cases h
        exact Or.inl rfl
      · rintro (h | ⟨a, h, _⟩)
        · cases h
          rfl
        · cases h
  | ok a =>
      constructor
      · intro h
        exact Or.inr ⟨a, rfl, h⟩
      · rintro (h | ⟨a', ha, h⟩)
        · cases h
        · cases ha
          exact h

theorem map_eq_ok_iff (f : α → β) (first : Except ε α) (b : β) :
    first.map f = .ok b ↔ ∃ a, first = .ok a ∧ f a = b := by
  cases first <;> simp [Except.map]

theorem mapError_eq_ok_iff {ε' : Type} (f : ε → ε') (first : Except ε α) (a : α) :
    first.mapError f = .ok a ↔ first = .ok a := by
  cases first <;> simp [Except.mapError]

theorem mapError_eq_error_iff {ε' : Type} (f : ε → ε') (first : Except ε α) (e : ε') :
    first.mapError f = .error e ↔ ∃ cause, first = .error cause ∧ f cause = e := by
  cases first <;> simp [Except.mapError]

/-- `f` succeeds on the elements before some element, and fails on that one with `e`. -/
def FirstFailure (f : α → Except ε β) (xs : List α) (e : ε) : Prop :=
  ∃ before x after,
    xs = before ++ x :: after ∧ (∀ y ∈ before, ∃ b, f y = .ok b) ∧ f x = .error e

theorem firstFailure_nil (f : α → Except ε β) (e : ε) : ¬ FirstFailure f [] e := by
  rintro ⟨before, x, after, h, _⟩
  simp at h

theorem firstFailure_cons (f : α → Except ε β) (x : α) (xs : List α) (e : ε) :
    FirstFailure f (x :: xs) e ↔
      f x = .error e ∨ (∃ b, f x = .ok b) ∧ FirstFailure f xs e := by
  constructor
  · rintro ⟨before, y, after, hxs, hbefore, hy⟩
    cases before with
    | nil =>
        obtain ⟨rfl, rfl⟩ : x = y ∧ xs = after := by
          simpa using hxs
        exact Or.inl hy
    | cons z before =>
        obtain ⟨rfl, rfl⟩ : x = z ∧ xs = before ++ y :: after := by
          simpa using hxs
        refine Or.inr ⟨hbefore x (by simp), before, y, after, rfl, ?_, hy⟩
        intro w hw
        exact hbefore w (List.mem_cons_of_mem _ hw)
  · rintro (hx | ⟨hx, before, y, after, rfl, hbefore, hy⟩)
    · exact ⟨[], x, xs, rfl, by simp, hx⟩
    · refine ⟨x :: before, y, after, rfl, ?_, hy⟩
      intro w hw
      rcases List.mem_cons.mp hw with rfl | hw
      · exact hx
      · exact hbefore w hw

/-- A traversal succeeds exactly if every element does. -/
theorem mapM_eq_ok_iff (f : α → Except ε β) (xs : List α) (ys : List β) :
    xs.mapM f = .ok ys ↔ List.Forall₂ (fun x y => f x = .ok y) xs ys := by
  induction xs generalizing ys with
  | nil =>
      constructor
      · intro h
        cases h
        exact List.Forall₂.nil
      · intro h
        cases h
        rfl
  | cons x xs ih =>
      rw [List.mapM_cons, bind_eq_ok_iff]
      constructor
      · rintro ⟨y, hy, h⟩
        obtain ⟨rest, hrest, h⟩ := (bind_eq_ok_iff _ _ _).mp h
        cases h
        exact List.Forall₂.cons hy ((ih rest).mp hrest)
      · intro h
        cases h with
        | @cons _ y _ rest hy hrest =>
            refine ⟨y, hy, ?_⟩
            rw [(ih rest).mpr hrest]
            rfl

/-- A traversal fails exactly as the first element that fails. -/
theorem mapM_eq_error_iff (f : α → Except ε β) (xs : List α) (e : ε) :
    xs.mapM f = .error e ↔ FirstFailure f xs e := by
  induction xs with
  | nil =>
      constructor
      · intro h
        cases h
      · intro h
        exact absurd h (firstFailure_nil f e)
  | cons x xs ih =>
      rw [List.mapM_cons, bind_eq_error_iff, firstFailure_cons, ← ih]
      constructor
      · rintro (hx | ⟨y, hy, h⟩)
        · exact Or.inl hx
        · rcases (bind_eq_error_iff _ _ _).mp h with h | ⟨rest, _, h⟩
          · exact Or.inr ⟨⟨y, hy⟩, h⟩
          · cases h
      · rintro (hx | ⟨⟨y, hy⟩, h⟩)
        · exact Or.inl hx
        · exact Or.inr ⟨y, hy, by rw [h]; rfl⟩

/-- A traversal without results fails exactly as the first element that fails. -/
theorem forM_eq_error_iff (f : α → Except ε Unit) (xs : List α) (e : ε) :
    xs.forM f = .error e ↔ FirstFailure f xs e := by
  induction xs with
  | nil =>
      constructor
      · intro h
        cases h
      · intro h
        exact absurd h (firstFailure_nil f e)
  | cons x xs ih =>
      rw [show (x :: xs).forM f = f x >>= fun _ => xs.forM f from rfl, bind_eq_error_iff, firstFailure_cons, ← ih]
      simp only [exists_and_right]

/-- A traversal without results succeeds exactly if every element does. -/
theorem forM_eq_ok_iff (f : α → Except ε Unit) (xs : List α) :
    xs.forM f = .ok () ↔ ∀ x ∈ xs, f x = .ok () := by
  induction xs with
  | nil =>
      exact ⟨fun _ x hx => by simp at hx, fun _ => rfl⟩
  | cons x xs ih =>
      rw [show (x :: xs).forM f = f x >>= fun _ => xs.forM f from rfl, bind_eq_ok_iff, List.forall_mem_cons, ← ih]
      constructor
      · rintro ⟨u, hx, h⟩
        exact ⟨hx, h⟩
      · rintro ⟨hx, h⟩
        exact ⟨(), hx, h⟩

/-- If every element gives the value of `g`, a traversal gives the values of `g` in order. -/
theorem mapM_eq_map (f : α → Except ε β) (g : α → β) (xs : List α)
    (h : ∀ x ∈ xs, f x = .ok (g x)) :
    xs.mapM f = .ok (xs.map g) := by
  rw [mapM_eq_ok_iff, List.forall₂_map_right_iff, List.forall₂_same]
  exact h

theorem exists_forall₂_iff (r : α → β → Prop) (xs : List α) :
    (∃ ys, List.Forall₂ r xs ys) ↔ ∀ x ∈ xs, ∃ y, r x y := by
  induction xs with
  | nil =>
      exact ⟨fun _ x hx => by simp at hx, fun _ => ⟨[], List.Forall₂.nil⟩⟩
  | cons x xs ih =>
      rw [List.forall_mem_cons, ← ih]
      constructor
      · rintro ⟨ys, h⟩
        cases h with
        | @cons _ y _ rest hy hrest =>
            exact ⟨⟨y, hy⟩, rest, hrest⟩
      · rintro ⟨⟨y, hy⟩, rest, hrest⟩
        exact ⟨y :: rest, List.Forall₂.cons hy hrest⟩

/-- A traversal succeeds exactly if every element does, whatever the results. -/
theorem mapM_succeeds_iff (f : α → Except ε β) (xs : List α) :
    (∃ ys, xs.mapM f = .ok ys) ↔ ∀ x ∈ xs, ∃ y, f x = .ok y := by
  simp only [mapM_eq_ok_iff]
  exact exists_forall₂_iff _ xs

/-- A traversal of elements that succeed under some condition, each with a known result. -/
theorem mapM_eq_ok_iff_of_forall {f : α → Except ε β} {p : α → Prop} {g : α → β} {xs : List α}
    (h : ∀ x ∈ xs, ∀ y, f x = .ok y ↔ p x ∧ y = g x) (ys : List β) :
    xs.mapM f = .ok ys ↔ (∀ x ∈ xs, p x) ∧ ys = xs.map g := by
  constructor
  · intro hys
    have hp : ∀ x ∈ xs, p x := by
      intro x hx
      obtain ⟨y, hy⟩ := (mapM_succeeds_iff f xs).mp ⟨ys, hys⟩ x hx
      exact ((h x hx y).mp hy).1
    have hmap := mapM_eq_map f g xs fun x hx => (h x hx (g x)).mpr ⟨hp x hx, rfl⟩
    exact ⟨hp, Except.ok.inj (hys.symm.trans hmap)⟩
  · rintro ⟨hp, rfl⟩
    exact mapM_eq_map f g xs fun x hx => (h x hx (g x)).mpr ⟨hp x hx, rfl⟩

section Keyed

variable {κ : Type} {key : α → κ} {f : α → Except ε β} {xs : List α}

variable (key f xs) in
/-- A traversal that keeps a key of each element beside its result. -/
theorem mapM_keyed_eq_ok_iff (ms : List (κ × β)) :
    (xs.mapM fun x => do let y ← f x; return (key x, y)) = .ok ms ↔
      List.Forall₂ (fun x m => m.1 = key x ∧ f x = .ok m.2) xs ms := by
  have hstep (x : α) (m : κ × β) :
      (do let y ← f x; return (key x, y)) = Except.ok m ↔ m.1 = key x ∧ f x = .ok m.2 := by
    rw [bind_eq_ok_iff]
    constructor
    · rintro ⟨y, hy, h⟩
      cases h
      exact ⟨rfl, hy⟩
    · rintro ⟨hkey, hy⟩
      exact ⟨m.2, hy, by rw [← hkey]; rfl⟩
  simp only [mapM_eq_ok_iff, hstep]

theorem keys_of_mapM_keyed {ms : List (κ × β)}
    (h : (xs.mapM fun x => do let y ← f x; return (key x, y)) = .ok ms) : ms.map (·.1) = xs.map key := by
  rw [mapM_keyed_eq_ok_iff] at h
  induction h with
  | nil => rfl
  | cons hm _ ih => rw [List.map_cons, List.map_cons, hm.1, ih]

/-- A traversal of the elements with some keys gives the results under those keys. -/
theorem mapM_keyed_filter {ms : List (κ × β)}
    (h : (xs.mapM fun x => do let y ← f x; return (key x, y)) = .ok ms) (p : κ → Bool) :
    ((xs.filter fun x => p (key x)).mapM fun x => do let y ← f x; return (key x, y)) =
      .ok (ms.filter fun m => p m.1) := by
  rw [mapM_keyed_eq_ok_iff] at h ⊢
  induction h with
  | nil => exact .nil
  | @cons x m xs ms hm _ ih =>
      rw [List.filter_cons, List.filter_cons, hm.1]
      split
      · exact .cons hm ih
      · exact ih

theorem exists_of_mem_mapM_keyed {ms : List (κ × β)}
    (h : (xs.mapM fun x => do let y ← f x; return (key x, y)) = .ok ms) {m : κ × β} (hm : m ∈ ms) :
    ∃ x ∈ xs, m.1 = key x ∧ f x = .ok m.2 := by
  rw [mapM_keyed_eq_ok_iff] at h
  induction h with
  | nil =>
      cases hm
  | @cons x _ _ _ hfirst _ ih =>
      rcases List.mem_cons.mp hm with rfl | hm
      · exact ⟨x, List.mem_cons_self, hfirst⟩
      · obtain ⟨other, hother, hmade⟩ := ih hm
        exact ⟨other, List.mem_cons_of_mem x hother, hmade⟩

end Keyed

/-- A traversal that keeps its elements beside their results. -/
theorem mapM_pair_eq_ok_iff (f : α → Except ε β) (xs : List α) (ms : List (α × β)) :
    (xs.mapM fun x => do let y ← f x; return (x, y)) = .ok ms ↔
      ms.map (·.1) = xs ∧ ∀ m ∈ ms, f m.1 = .ok m.2 := by
  refine (mapM_keyed_eq_ok_iff id f xs ms).trans ⟨?_, ?_⟩
  · intro h
    induction h with
    | nil =>
        simp
    | @cons x m xs ms hm _ ih =>
        obtain ⟨rfl, hmade⟩ := hm
        exact ⟨by rw [List.map_cons, ih.1], List.forall_mem_cons.mpr ⟨hmade, ih.2⟩⟩
  · rintro ⟨rfl, h⟩
    rw [List.forall₂_map_left_iff, List.forall₂_same]
    exact fun m hm => ⟨rfl, h m hm⟩

/-- A traversal of the numbers below a bound. -/
theorem mapM_range_eq_ok_iff (f : Nat → Except ε β) (n : Nat) (ys : List β) :
    (List.range n).mapM f = .ok ys ↔ ys.length = n ∧ ∀ (i : Nat) y, ys[i]? = some y → f i = .ok y := by
  rw [mapM_eq_ok_iff, List.forall₂_iff_get]
  constructor
  · rintro ⟨hlength, h⟩
    rw [List.length_range] at hlength
    subst hlength
    refine ⟨rfl, fun i y hy => ?_⟩
    obtain ⟨hi, rfl⟩ := List.getElem?_eq_some_iff.mp hy
    simpa using h i (by simpa using hi) hi
  · rintro ⟨rfl, h⟩
    refine ⟨List.length_range, fun i _ hi => ?_⟩
    simpa using h i ys[i] (List.getElem?_eq_getElem hi)

/-- A traversal with an element that fails gives the error of one of its elements. -/
theorem mapM_fails (f : α → Except ε β) (xs : List α)
    (h : ∃ x ∈ xs, ∃ e, f x = .error e) :
    ∃ x ∈ xs, ∃ e, f x = .error e ∧ xs.mapM f = .error e := by
  cases hm : xs.mapM f with
  | error e =>
      obtain ⟨before, x, after, hxs, _, hx⟩ := (mapM_eq_error_iff f xs e).mp hm
      exact ⟨x, by simp [hxs], e, hx, rfl⟩
  | ok ys =>
      obtain ⟨x, hmem, e, hx⟩ := h
      obtain ⟨y, hy⟩ := (mapM_succeeds_iff f xs).mp ⟨ys, hm⟩ x hmem
      rw [hx] at hy
      cases hy

theorem mapM_keyed_fails {κ : Type} (key : α → κ) (f : α → Except ε β) (xs : List α)
    (h : ∃ x ∈ xs, ∃ e, f x = .error e) :
    ∃ x ∈ xs, ∃ e, f x = .error e ∧ (xs.mapM fun x => do let y ← f x; return (key x, y)) = .error e := by
  have hstep (x : α) (e : ε) : (do let y ← f x; return (key x, y)) = Except.error e ↔ f x = .error e := by
    rw [bind_eq_error_iff]
    exact or_iff_left fun ⟨_, _, h⟩ => nomatch h
  simp only [← hstep] at h ⊢
  exact mapM_fails _ xs h

/-- A traversal that may give nothing succeeds exactly if every element gives something. -/
theorem mapM_eq_some_iff (f : α → Option β) (xs : List α) (ys : List β) :
    xs.mapM f = some ys ↔ List.Forall₂ (fun x y => f x = some y) xs ys := by
  induction xs generalizing ys with
  | nil =>
      constructor
      · intro h
        cases h
        exact List.Forall₂.nil
      · intro h
        cases h
        rfl
  | cons x xs ih =>
      simp only [List.mapM_cons, Option.bind_eq_bind, Option.bind_eq_some_iff, Option.pure_def,
        Option.some.injEq]
      constructor
      · rintro ⟨y, hy, rest, hrest, rfl⟩
        exact List.Forall₂.cons hy ((ih rest).mp hrest)
      · intro h
        cases h with
        | @cons _ y _ rest hy hrest => exact ⟨y, hy, rest, (ih rest).mpr hrest, rfl⟩

section Agreement

variable {α' β' : Type} {r : α → α' → Prop} {s : β → β' → Prop}

/-- Two runs fail alike, or both succeed with related results. -/
inductive Agree (r : α → α' → Prop) : Except ε α → Except ε α' → Prop
  | error (e : ε) : Agree r (.error e) (.error e)
  | ok {a : α} {a' : α'} (h : r a a') : Agree r (.ok a) (.ok a')

theorem Agree.refl {r : α → α → Prop} (hr : ∀ a, r a a) (run : Except ε α) : Agree r run run := by
  cases run with
  | error e => exact .error e
  | ok a => exact .ok (hr a)

theorem Agree.bind {first : Except ε α} {first' : Except ε α'} {second : α → Except ε β} {second' : α' → Except ε β'}
    (h : Agree r first first') (hsecond : ∀ a a', r a a' → Agree s (second a) (second' a')) :
    Agree s (first >>= second) (first' >>= second') := by
  cases h with
  | error e => exact .error e
  | ok h => exact hsecond _ _ h

theorem Agree.map {first : Except ε α} {first' : Except ε α'} {f : α → β} {f' : α' → β'} (h : Agree r first first')
    (hf : ∀ a a', r a a' → s (f a) (f' a')) : Agree s (first.map f) (first'.map f') := by
  cases h with
  | error e => exact .error e
  | ok h => exact .ok (hf _ _ h)

theorem Agree.mapError {ε' : Type} {first : Except ε α} {first' : Except ε α'} (h : Agree r first first')
    (f : ε → ε') : Agree r (first.mapError f) (first'.mapError f) := by
  cases h with
  | error e => exact .error (f e)
  | ok h => exact .ok h

theorem Agree.mapM {f : α → Except ε β} {f' : α → Except ε β'} {xs : List α} (h : ∀ x ∈ xs, Agree s (f x) (f' x)) :
    Agree (List.Forall₂ s) (xs.mapM f) (xs.mapM f') := by
  induction xs with
  | nil =>
      exact .ok .nil
  | cons x xs ih =>
      obtain ⟨hx, hxs⟩ := List.forall_mem_cons.mp h
      rw [List.mapM_cons, List.mapM_cons]
      refine hx.bind fun y y' hy => ?_
      exact (ih hxs).bind fun ys ys' hys => .ok (.cons hy hys)

end Agreement

end Traversal
end RecordSearch
