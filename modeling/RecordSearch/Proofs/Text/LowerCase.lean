import RecordSearch.Text.LowerCase
import Mathlib.Data.List.Infix

/-!
# Lower case of parts

The lower form of a part of a text is not always a part of the lower form of the text, since a capital sigma may end
the part, but no word of the text.

* `lowerWithin`: the lower form of a part in its place.
* `lowerCase_occurrence`: the lower form of a text is made of those of its parts in their places.
* `Settled`, `lowerWithin_eq_lowerCase_iff`: when a part has the same lower form in its place and alone.
* `settled_of_noSigma`, `settled_of_apart`: this is so without a capital sigma, and for parts that stand apart.
* `lowerCase_of_settledIn`: a part with a settled place is found in the lower form of the text.
-/

namespace RecordSearch.Text

variable {before after part text : List Char}

/-- The lower form of a character between `before` (nearest first) and `after`. -/
def lowerAt (before after : List Char) (c : Char) : List Char :=
  if c = 'Σ' then [if endsWord before after then 'ς' else 'σ'] else lowerChar c

/-- The lower form of a part between `before` (nearest first) and `after`. -/
def lowerWithin (before after : List Char) : List Char → List Char
  | [] => []
  | c :: rest => lowerAt before (rest ++ after) c ++ lowerWithin (c :: before) after rest

/-- In its place between two texts, every capital sigma of a part ends a word if it does so in the part alone, and only
then. -/
def Settled (before after part : List Char) : Prop :=
  ∀ left right, part = left ++ 'Σ' :: right →
    endsWord (left.reverse ++ before.reverse) (right ++ after) = endsWord left.reverse right

/-- A part has a place in the text where it is settled. -/
def SettledIn (text part : List Char) : Prop :=
  ∃ before after, before ++ part ++ after = text ∧ Settled before after part

section Places

theorem lowerAfter_eq_lowerWithin (before cs : List Char) : lowerAfter before cs = lowerWithin before [] cs := by
  induction cs generalizing before with
  | nil => rfl
  | cons c rest ih =>
      by_cases hsigma : c = 'Σ'
      · subst hsigma
        simp [lowerAfter, lowerWithin, lowerAt, ih]
      · simp [lowerAfter, lowerWithin, lowerAt, hsigma, ih]

theorem lowerWithin_append (before after first second : List Char) :
    lowerWithin before after (first ++ second) =
      lowerWithin before (second ++ after) first ++ lowerWithin (first.reverse ++ before) after second := by
  induction first generalizing before with
  | nil => rfl
  | cons c rest ih => simp [lowerWithin, ih]

/-- The lower form of a text, in three parts in their places. -/
theorem lowerCase_occurrence (before part after : List Char) :
    lowerCase (before ++ part ++ after) =
      lowerWithin [] (part ++ after) before ++ lowerWithin before.reverse after part ++
        lowerWithin (part.reverse ++ before.reverse) [] after := by
  rw [lowerCase, lowerAfter_eq_lowerWithin, List.append_assoc, lowerWithin_append, lowerWithin_append]
  simp only [List.append_nil, List.append_assoc]

end Places

section Comparison

variable {before' after' : List Char}

theorem length_lowerAt (before after before' after' : List Char) (c : Char) :
    (lowerAt before after c).length = (lowerAt before' after' c).length := by
  by_cases hsigma : c = 'Σ' <;> simp [lowerAt, hsigma]

/-- Only for the capital sigma does the place matter. -/
theorem lowerAt_eq_lowerAt_iff (c : Char) :
    lowerAt before after c = lowerAt before' after' c ↔ (c = 'Σ' → endsWord before after = endsWord before' after') := by
  by_cases hsigma : c = 'Σ'
  · cases hends : endsWord before after <;> cases hends' : endsWord before' after' <;>
      simp [lowerAt, hsigma, hends, hends']
  · simp [lowerAt, hsigma]

/-- The places of a capital sigma in a text are its first character, if it is one, and the places in the rest. -/
theorem forall_sigma_cons_iff {p : List Char → List Char → Prop} (c : Char) (rest : List Char) :
    (∀ left right, c :: rest = left ++ 'Σ' :: right → p left right) ↔
      (c = 'Σ' → p [] rest) ∧ ∀ left right, rest = left ++ 'Σ' :: right → p (c :: left) right := by
  constructor
  · refine fun h => ⟨?_, ?_⟩
    · rintro rfl
      exact h [] rest rfl
    · rintro left right rfl
      exact h (c :: left) right rfl
  · rintro ⟨hfirst, hrest⟩ left right heq
    obtain ⟨rfl, hcons⟩ | ⟨left, rfl, rfl⟩ := List.cons_eq_append_iff.mp heq
    · obtain ⟨rfl, rfl⟩ := List.cons.inj hcons
      exact hfirst rfl
    · exact hrest left right rfl

/-- A part has the same lower form in two places if every capital sigma of it ends a word in both or in none. -/
theorem lowerWithin_eq_lowerWithin_iff (part : List Char) :
    lowerWithin before after part = lowerWithin before' after' part ↔
      ∀ left right, part = left ++ 'Σ' :: right →
        endsWord (left.reverse ++ before) (right ++ after) = endsWord (left.reverse ++ before') (right ++ after') := by
  induction part generalizing before before' with
  | nil => simp [lowerWithin]
  | cons c rest ih =>
      -- The first character has lower forms of one length, so the whole is the same only piece by piece.
      have hcons : lowerWithin before after (c :: rest) = lowerWithin before' after' (c :: rest) ↔
          lowerAt before (rest ++ after) c = lowerAt before' (rest ++ after') c ∧
            lowerWithin (c :: before) after rest = lowerWithin (c :: before') after' rest := by
        rw [lowerWithin, lowerWithin]
        exact ⟨fun h => List.append_inj h (length_lowerAt _ _ _ _ c), fun ⟨h, h'⟩ => by rw [h, h']⟩
      rw [hcons, lowerAt_eq_lowerAt_iff, ih, forall_sigma_cons_iff]
      simp

/-- A part keeps its lower form in a place exactly if it is settled there. -/
theorem lowerWithin_eq_lowerCase_iff (before after part : List Char) :
    lowerWithin before.reverse after part = lowerCase part ↔ Settled before after part := by
  rw [lowerCase, lowerAfter_eq_lowerWithin, lowerWithin_eq_lowerWithin_iff, Settled]
  simp only [List.append_nil]

end Comparison

section Settling

/-- The lower form of a part that is settled somewhere is found in the lower form of the text. -/
theorem lowerCase_of_settledIn (h : SettledIn text part) : lowerCase part <:+: lowerCase text := by
  obtain ⟨before, after, rfl, hsettled⟩ := h
  rw [lowerCase_occurrence, (lowerWithin_eq_lowerCase_iff before after part).mpr hsettled]
  exact List.infix_append _ _ _

theorem settled_of_noSigma (before after : List Char) (hno : 'Σ' ∉ part) : Settled before after part := by
  rintro left right rfl
  simp at hno

/-- Without a capital sigma a part is settled wherever it stands. -/
theorem settledIn_of_noSigma (hpart : part <:+: text) (hno : 'Σ' ∉ part) : SettledIn text part := by
  obtain ⟨before, after, htext⟩ := hpart
  exact ⟨before, after, htext, settled_of_noSigma before after hno⟩

theorem startsCased_append_of_not (cs : List Char) (h : startsCased after = false) :
    startsCased (cs ++ after) = startsCased cs := by
  rw [startsCased, startsCased, List.dropWhile_append]
  cases hrest : cs.dropWhile isCaseIgnorable with
  | nil => exact h
  | cons c rest => rfl

/-- A part is settled where it begins and ends apart from other letters. -/
theorem settled_of_apart (hbefore : startsCased before.reverse = false) (hafter : startsCased after = false)
    (part : List Char) : Settled before after part := by
  intro left right _
  rw [endsWord, endsWord, startsCased_append_of_not _ hbefore, startsCased_append_of_not _ hafter]

end Settling

end RecordSearch.Text
