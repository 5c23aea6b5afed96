import RecordSearch.Proofs.Template.Padding
import RecordSearch.Template.Json

/-!
# The size of padded texts

The memory of a text is limited, but the width of a format specification only by the word that holds it: there are
widths that no text can have.

* `size_apply`: the bytes of a padded text.
* `representable_apply`: which specifications pad every text to one that there is room for, and which none.
* `apply_unrepresentable`: the greatest width is one of these.
-/

namespace RecordSearch
namespace FormatSpec

/-- The most bytes that a text can have. -/
def maxBytes : Nat := Nat.pow 2 63 - 1

/-- The bytes of characters in UTF-8. -/
def size (chars : List Char) : Nat :=
  (String.ofList chars).utf8ByteSize

/-- There is room for a text of these characters. -/
def Representable (chars : List Char) : Prop :=
  size chars ≤ maxBytes

instance (chars : List Char) : Decidable (Representable chars) :=
  inferInstanceAs (Decidable (_ ≤ _))

theorem size_append (first second : List Char) : size (first ++ second) = size first + size second := by
  rw [size, String.ofList_append, String.utf8ByteSize_append, size, size]

theorem size_singleton (c : Char) : size [c] = c.utf8Size := by
  rw [size, ← String.singleton_eq_ofList, String.utf8ByteSize_singleton]

theorem size_cons (c : Char) (chars : List Char) : size (c :: chars) = c.utf8Size + size chars := by
  rw [← List.singleton_append, size_append, size_singleton]

theorem size_replicate (n : Nat) (c : Char) : size (List.replicate n c) = n * c.utf8Size := by
  induction n with
  | zero => simp [size]
  | succ n ih => rw [List.replicate_succ, size_cons, ih, Nat.succ_mul, Nat.add_comm]

/-- A character has one to four bytes. -/
theorem size_bounds (chars : List Char) : chars.length ≤ size chars ∧ size chars ≤ 4 * chars.length := by
  induction chars with
  | nil => simp [size]
  | cons c rest ih =>
      have hpos := c.utf8Size_pos
      have hfour := c.utf8Size_le_four
      rw [size_cons, List.length_cons]
      omega

section Applying

variable (spec : FormatSpec) (value : Scalar)

/-- A padded text has the bytes of the text, and those of a fill character for every character that it lacks. -/
theorem size_apply :
    size (spec.apply value) =
      size value.text.toList + (spec.width - value.text.toList.length) * spec.fill.utf8Size := by
  obtain ⟨align, before, after, -, -, hsum, h⟩ := pads_apply spec value
  rw [h, size_append, size_append, size_replicate, size_replicate, ← hsum, Nat.add_mul]
  omega

/-- A text without padding is what it was; one with padding has no more characters than the width. -/
theorem representable_of_width (hvalue : Representable value.text.toList) (hwidth : 4 * spec.width ≤ maxBytes) :
    Representable (spec.apply value) := by
  by_cases hpad : spec.width ≤ value.text.toList.length
  · rw [Representable, size_apply, Nat.sub_eq_zero_of_le hpad, Nat.zero_mul, Nat.add_zero]
    exact hvalue
  · have hlength : (spec.apply value).length = spec.width := by
      rw [length_apply]
      omega
    calc size (spec.apply value)
      _ ≤ 4 * (spec.apply value).length := (size_bounds _).2
      _ = 4 * spec.width := by rw [hlength]
      _ ≤ maxBytes := hwidth

/-- Every character has a byte at least. -/
theorem not_representable_of_width (hwidth : maxBytes < spec.width) : ¬ Representable (spec.apply value) := by
  have hlength := length_apply spec value
  have hsize := (size_bounds (spec.apply value)).1
  rw [Representable]
  omega

end Applying

/-- **Which specifications can be applied.**  Every width that fits in a word can be written.  Where a width leaves room
for four bytes a character, every text that there is room for can be padded to it; where it is greater than the most
bytes that a text can have, there is room for no padded text.  In between it depends on the text and the fill. -/
theorem representable_apply (spec : FormatSpec) (value : Scalar) (hvalue : Representable value.text.toList) :
    ((∃ z, parse? z = some spec) ↔ spec.width < Decimal.wordLimit ∧ (spec.align = none → spec.fill = ' ')) ∧
    (Representable (spec.apply value) ↔
      size value.text.toList + (spec.width - value.text.toList.length) * spec.fill.utf8Size ≤ maxBytes) ∧
    (4 * spec.width ≤ maxBytes → Representable (spec.apply value)) ∧
    (maxBytes < spec.width → ¬ Representable (spec.apply value)) := by
  refine ⟨?_, ?_, representable_of_width spec value hvalue, not_representable_of_width spec value⟩
  · simp only [parse?_eq_some_iff, exists_spells_iff]
  · rw [Representable, size_apply]

/-- A fill of three bytes before a text with a character of two bytes, and the same fill for more characters than there
is room for. -/
theorem representable_apply_filled :
    let spec : FormatSpec := ⟨'→', some .right, 10⟩
    let wide : FormatSpec := ⟨'→', some .right, maxBytes + 1⟩
    let value : Scalar := .str "café"
    Representable value.text.toList ∧ (∃ z, parse? z = some spec) ∧ 4 * spec.width ≤ maxBytes ∧
      Representable (spec.apply value) ∧
      size value.text.toList + (spec.width - value.text.toList.length) * spec.fill.utf8Size ≤ maxBytes ∧
      (∃ z, parse? z = some wide) ∧ maxBytes < wide.width ∧ ¬ Representable (wide.apply value) := by
  intro spec wide value
  have hvalue : Representable value.text.toList := by decide
  have hwidth : 4 * spec.width ≤ maxBytes := by decide
  have hwide : maxBytes < wide.width := Nat.lt_succ_self maxBytes
  obtain ⟨hread, hiff, hfits, -⟩ := representable_apply spec value hvalue
  obtain ⟨hreadWide, -, -, hexceeds⟩ := representable_apply wide value hvalue
  exact ⟨hvalue, hread.mpr ⟨by decide, nofun⟩, hwidth, hfits hwidth, hiff.mp (hfits hwidth),
    hreadWide.mpr ⟨by decide, nofun⟩, hwide, hexceeds hwide⟩

/-- The greatest width is read, also in a template, and there is no room for any text of that width. -/
theorem apply_unrepresentable :
    let spec : FormatSpec := ⟨' ', none, 18446744073709551615⟩
    let literal : Literal := ⟨.str "\x7btitle:18446744073709551615\x7d", [.placeholder "title" (some spec)]⟩
    parse? "18446744073709551615".toList = some spec ∧
      Template.ofJson (.string "\x7btitle:18446744073709551615\x7d") = ⟨[], .ok (.literal literal)⟩ ∧
      Representable (Scalar.str "Dune").text.toList ∧ ¬ Representable (spec.apply (.str "Dune")) ∧
      ∃ text, literal.render (.object [("title", .string "Dune")]) = .ok text ∧ ¬ Representable text.toList := by
  intro spec literal
  have hexceeds : ¬ Representable (spec.apply (.str "Dune")) :=
    not_representable_of_width spec (.str "Dune") (by decide)
  have hrender : literal.render (.object [("title", .string "Dune")]) =
      .ok (String.ofList (spec.apply (.str "Dune") ++ [])) := by
    rfl
  refine ⟨by rfl, by rfl, by decide, hexceeds, _, hrender, ?_⟩
  rwa [String.toList_ofList, List.append_nil]

end FormatSpec
end RecordSearch
