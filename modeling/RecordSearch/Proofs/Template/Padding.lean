import RecordSearch.Template.FormatSpec

/-!
# Padding

A format specification is written as `[[fill]align][width]`.  A fill may be any character, also a digit or one that asks
for an alignment, so that a text can begin in more than one way; only one of them goes on with the digits of a width.

* `Spells`: the texts that write a specification; `parse?_eq_some_iff`: these are read, each as what it writes.
* `exists_spells_iff`: which specifications can be written.
* `Pads`: a text between fill characters; `apply_eq_iff`: what a specification makes of a scalar.
* `parse?_spelled_apply_padded`: the main result.
-/

namespace RecordSearch

namespace Align

/-- The character that asks for an alignment. -/
def char : Align → Char
  | left => '<'
  | right => '>'
  | center => '^'

/-- How many fill characters stand before and after a text.  In the center, of an odd number the larger part follows. -/
def Divides : Align → Nat → Nat → Prop
  | left, before, _ => before = 0
  | right, _, after => after = 0
  | center, before, after => before = (before + after) / 2

@[simp] theorem ofChar?_char (align : Align) : ofChar? align.char = some align := by
  cases align <;> rfl

theorem eq_char_of_ofChar? {c : Char} {align : Align} (h : ofChar? c = some align) : c = align.char := by
  unfold ofChar? at h
  split at h
  · cases h
    assumption
  · split at h
    · cases h
      assumption
    · split at h
      · cases h
        assumption
      · cases h

theorem ofChar?_of_isDigit {c : Char} (hc : c.isDigit = true) : ofChar? c = none := by
  refine Option.eq_none_iff_forall_ne_some.mpr fun align h => ?_
  rw [eq_char_of_ofChar? h] at hc
  cases align <;> cases hc

theorem divides_iff (align : Align) (pad before after : Nat) :
    align.Divides before after ∧ before + after = pad ↔ (before, after) = FormatSpec.split align pad := by
  cases align with
  | left =>
      simp only [Divides, FormatSpec.split, Prod.mk.injEq]
      omega
  | right =>
      simp only [Divides, FormatSpec.split, Prod.mk.injEq]
      omega
  | center =>
      simp only [Divides, FormatSpec.split, Prod.mk.injEq]
      omega

end Align

namespace FormatSpec

/-! ## Written specifications -/

/-- The digits, which may be none, write a width that fits in a word. -/
structure Writes (digits : List Char) (width : Nat) : Prop where
  onlyDigits : ∀ c ∈ digits, c.isDigit = true
  value : Nat.ofDigitChars 10 digits 0 = width
  fits : width < Decimal.wordLimit

/-- The text writes the specification. -/
inductive Spells : List Char → FormatSpec → Prop
  | filled (fill : Char) (align : Align) {digits : List Char} {width : Nat} (h : Writes digits width) :
      Spells (fill :: align.char :: digits) ⟨fill, some align, width⟩
  | aligned (align : Align) {digits : List Char} {width : Nat} (h : Writes digits width) :
      Spells (align.char :: digits) ⟨' ', some align, width⟩
  | plain {digits : List Char} {width : Nat} (h : Writes digits width) : Spells digits ⟨' ', none, width⟩

section Reading

variable {z digits : List Char} {spec : FormatSpec}

theorem width?_eq_some_iff (digits : List Char) (width : Nat) : width? digits = some width ↔ Writes digits width := by
  cases digits with
  | nil =>
      have hzero : 0 < Decimal.wordLimit := by decide
      constructor
      · intro h
        cases h
        exact ⟨by simp, rfl, hzero⟩
      · rintro ⟨-, rfl, -⟩
        rfl
  | cons c rest =>
      simp only [width?, List.isEmpty_cons, Bool.false_eq_true, if_false, Option.filter_eq_some_iff, decide_eq_true_eq,
        Decimal.ofDigits?, Bool.false_or]
      constructor
      · rintro ⟨hvalue, hfits⟩
        split at hvalue
        · cases hvalue
        · rename_i hall
          rw [Bool.not_eq_true, Bool.not_eq_false', List.all_eq_true] at hall
          exact ⟨hall, Option.some.inj hvalue, hfits⟩
      · rintro ⟨hall, rfl, hfits⟩
        rw [List.all_eq_true.mpr hall]
        exact ⟨rfl, hfits⟩

theorem withWidth?_eq_some_iff (fill : Char) (align : Option Align) :
    withWidth? fill align digits = some spec ↔ ∃ width, Writes digits width ∧ spec = ⟨fill, align, width⟩ := by
  rw [withWidth?, Option.map_eq_some_iff]
  refine exists_congr fun width => ?_
  rw [width?_eq_some_iff, eq_comm (a := spec)]

/-- A second character that asks for an alignment makes the first one the fill, whatever that is. -/
theorem parse?_filled_iff (fill : Char) (align : Align) :
    parse? (fill :: align.char :: digits) = some spec ↔
      ∃ width, Writes digits width ∧ spec = ⟨fill, some align, width⟩ := by
  simp only [parse?, Align.ofChar?_char, withWidth?_eq_some_iff]

/-- If the second character asks for no alignment, there is no fill. -/
theorem parse?_eq_unfilled? (h : ∀ fill a rest, z = fill :: a :: rest → Align.ofChar? a = none) :
    parse? z = unfilled? z := by
  rw [parse?.eq_def]
  split
  · rename_i fill a rest
    rw [h fill a rest rfl]
  · rfl

theorem unfilled?_aligned_iff (align : Align) :
    unfilled? (align.char :: digits) = some spec ↔ ∃ width, Writes digits width ∧ spec = ⟨' ', some align, width⟩ := by
  simp only [unfilled?, Align.ofChar?_char, withWidth?_eq_some_iff]

theorem unfilled?_plain_iff (h : ∀ a rest, z = a :: rest → Align.ofChar? a = none) :
    unfilled? z = some spec ↔ ∃ width, Writes z width ∧ spec = ⟨' ', none, width⟩ := by
  rw [unfilled?.eq_def]
  split
  · rename_i a rest
    rw [h a rest rfl]
    exact withWidth?_eq_some_iff ' ' none
  · exact withWidth?_eq_some_iff ' ' none

theorem spells_of_unfilled? (h : unfilled? z = some spec) : Spells z spec := by
  by_cases haligned : ∃ align digits, z = Align.char align :: digits
  · obtain ⟨align, digits, rfl⟩ := haligned
    obtain ⟨width, hwidth, rfl⟩ := (unfilled?_aligned_iff align).mp h
    exact Spells.aligned align hwidth
  · have hplain : ∀ a rest, z = a :: rest → Align.ofChar? a = none := by
      rintro a rest rfl
      refine Option.eq_none_iff_forall_ne_some.mpr fun align ha => haligned ⟨align, rest, ?_⟩
      rw [← Align.eq_char_of_ofChar? ha]
    obtain ⟨width, hwidth, rfl⟩ := (unfilled?_plain_iff hplain).mp h
    exact Spells.plain hwidth

/-- Exactly the written specifications are read. -/
theorem parse?_eq_some_iff (z : List Char) (spec : FormatSpec) : parse? z = some spec ↔ Spells z spec := by
  constructor
  · intro h
    by_cases hfilled : ∃ fill align digits, z = fill :: Align.char align :: digits
    · obtain ⟨fill, align, digits, rfl⟩ := hfilled
      obtain ⟨width, hwidth, rfl⟩ := (parse?_filled_iff fill align).mp h
      exact Spells.filled fill align hwidth
    · rw [parse?_eq_unfilled?] at h
      · exact spells_of_unfilled? h
      · rintro fill a rest rfl
        refine Option.eq_none_iff_forall_ne_some.mpr fun align ha => hfilled ⟨fill, align, rest, ?_⟩
        rw [← Align.eq_char_of_ofChar? ha]
  · intro h
    -- A digit asks for no alignment, so that the other beginnings are ruled out.
    cases h with
    | filled fill align h => exact (parse?_filled_iff fill align).mpr ⟨_, h, rfl⟩
    | aligned align h =>
        rw [parse?_eq_unfilled?, unfilled?_aligned_iff]
        · exact ⟨_, h, rfl⟩
        · rintro _ a rest ⟨rfl, rfl⟩
          exact Align.ofChar?_of_isDigit (h.onlyDigits a List.mem_cons_self)
    | plain h =>
        rw [parse?_eq_unfilled?, unfilled?_plain_iff]
        · exact ⟨_, h, rfl⟩
        · rintro a rest rfl
          exact Align.ofChar?_of_isDigit (h.onlyDigits a List.mem_cons_self)
        · rintro fill a rest rfl
          exact Align.ofChar?_of_isDigit (h.onlyDigits a (by simp))

/-- A width is written by its own digits. -/
theorem writes_digits {width : Nat} (h : width < Decimal.wordLimit) : Writes (Decimal.digits width) width :=
  ⟨fun _ hc => Decimal.isDigit_of_mem_digits hc, Nat.ofDigitChars_ten_toDigits, h⟩

/-- A specification can be written if its width fits in a word; a fill is written with an alignment only. -/
theorem exists_spells_iff (spec : FormatSpec) :
    (∃ z, Spells z spec) ↔ spec.width < Decimal.wordLimit ∧ (spec.align = none → spec.fill = ' ') := by
  constructor
  · rintro ⟨z, hz⟩
    cases hz with
    | filled fill align h => exact ⟨h.fits, nofun⟩
    | aligned align h => exact ⟨h.fits, nofun⟩
    | plain h => exact ⟨h.fits, fun _ => rfl⟩
  · obtain ⟨fill, align, width⟩ := spec
    rintro ⟨hfits, hfill⟩
    cases align with
    | some align => exact ⟨_, Spells.filled fill align (writes_digits hfits)⟩
    | none =>
        obtain rfl : fill = ' ' := hfill rfl
        exact ⟨_, Spells.plain (writes_digits hfits)⟩

end Reading

/-! ## Padded texts -/

/-- On which side the text of a scalar stands: as stated, or else on the right for integers and on the left for others. -/
inductive Stands (spec : FormatSpec) : Scalar → Align → Prop
  | stated {align : Align} (h : spec.align = some align) (value : Scalar) : Stands spec value align
  | int (h : spec.align = none) (n : Int64) : Stands spec (.int n) .right
  | bool (h : spec.align = none) (b : Bool) : Stands spec (.bool b) .left
  | str (h : spec.align = none) (s : String) : Stands spec (.str s) .left

/-- The text of the scalar between fill characters, as many as it lacks of the width. -/
def Pads (spec : FormatSpec) (value : Scalar) (padded : List Char) : Prop :=
  ∃ align before after, spec.Stands value align ∧ align.Divides before after ∧
    before + after = spec.width - value.text.toList.length ∧
    padded = List.replicate before spec.fill ++ value.text.toList ++ List.replicate after spec.fill

section Applying

variable (spec : FormatSpec) (value : Scalar)

theorem stands_iff (align : Align) : spec.Stands value align ↔ spec.alignOf value = align := by
  obtain ⟨fill, stated, width⟩ := spec
  constructor
  · intro h
    cases h with
    | stated h value =>
        obtain rfl : stated = some align := h
        rfl
    | int h n =>
        obtain rfl : stated = none := h
        rfl
    | bool h b =>
        obtain rfl : stated = none := h
        rfl
    | str h s =>
        obtain rfl : stated = none := h
        rfl
  · rintro rfl
    cases stated with
    | some align => exact Stands.stated rfl value
    | none =>
        cases value with
        | int n => exact Stands.int rfl n
        | bool b => exact Stands.bool rfl b
        | str s => exact Stands.str rfl s

/-- A specification pads a scalar in one way. -/
theorem apply_eq_iff (padded : List Char) : spec.apply value = padded ↔ spec.Pads value padded := by
  have hdivided : ∀ align before after, align.Divides before after ∧
      before + after = spec.width - value.text.toList.length ↔
        (before, after) = split align (spec.width - value.text.toList.length) :=
    fun align before after => Align.divides_iff align _ before after
  constructor
  · rintro rfl
    obtain ⟨hdivides, hsum⟩ := (hdivided (spec.alignOf value) _ _).mpr rfl
    exact ⟨_, _, _, (stands_iff spec value _).mpr rfl, hdivides, hsum, rfl⟩
  · rintro ⟨align, before, after, hstands, hdivides, hsum, rfl⟩
    obtain rfl := (stands_iff spec value align).mp hstands
    have hsplit := (hdivided _ before after).mp ⟨hdivides, hsum⟩
    simp only [apply, ← hsplit]

theorem pads_apply : spec.Pads value (spec.apply value) :=
  (apply_eq_iff spec value _).mp rfl

/-- A padded text is as long as the width, or as the text if that is longer. -/
theorem length_apply : (spec.apply value).length = max spec.width value.text.toList.length := by
  obtain ⟨align, before, after, -, -, hsum, h⟩ := pads_apply spec value
  rw [h, List.length_append, List.length_append, List.length_replicate, List.length_replicate]
  omega

end Applying

/-- A digit may be the fill, and then it is none of the width. -/
example : parse? "0^5".toList = some ⟨'0', some .center, 5⟩ := by rfl

end FormatSpec
end RecordSearch
