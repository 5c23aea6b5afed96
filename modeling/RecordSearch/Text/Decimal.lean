/-!
# Decimal numbers in text

Unsigned numbers are read from ASCII digits after at most one `+`; numbers are written with the fewest digits.
-/

namespace RecordSearch.Decimal

/-- Value of a nonempty run of ASCII digits. -/
def ofDigits? (cs : List Char) : Option Nat :=
  if cs.isEmpty || !cs.all Char.isDigit then none else some (Nat.ofDigitChars 10 cs 0)

/-- Value of an unsigned number, with at most one `+` before its digits. -/
def unsigned? : List Char → Option Nat
  | '+' :: cs => ofDigits? cs
  | cs => ofDigits? cs

/-- The numbers below fit in a word of 64 bits. -/
def wordLimit : Nat := Nat.pow 2 64

/-- Value of an unsigned number that fits in a word. -/
def word? (cs : List Char) : Option Nat :=
  (unsigned? cs).filter (· < wordLimit)

/-- The digits of a number. -/
def digits (n : Nat) : List Char :=
  Nat.toDigits 10 n

/-- The text of an integer. -/
def integer : Int → List Char
  | .ofNat n => digits n
  | .negSucc n => '-' :: digits (n + 1)

theorem isDigit_of_mem_digits {n : Nat} {c : Char} (h : c ∈ digits n) : c.isDigit = true :=
  Nat.isDigit_of_mem_toDigits (by decide) (by decide) h

theorem ofDigits?_digits (n : Nat) : ofDigits? (digits n) = some n := by
  have hne : digits n ≠ [] := Nat.toDigits_ne_nil
  have hall : (digits n).all Char.isDigit = true :=
    List.all_eq_true.2 fun _ h => isDigit_of_mem_digits h
  simp [ofDigits?, hne, hall]
  exact Nat.ofDigitChars_ten_toDigits

/-- Digits have no `+` before them. -/
theorem unsigned?_digits (n : Nat) : unsigned? (digits n) = some n := by
  rw [unsigned?]
  · exact ofDigits?_digits n
  · intro cs h
    have hplus : '+' ∈ digits n := by
      rw [h]
      exact List.mem_cons_self
    cases isDigit_of_mem_digits hplus

end RecordSearch.Decimal
