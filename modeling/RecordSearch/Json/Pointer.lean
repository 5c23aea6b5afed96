import RecordSearch.Json.Basic
import RecordSearch.Text.Decimal

/-!
# Pointers

A pointer names a part of a value by tokens, each written behind a slash; the empty pointer names the whole.  Inside a
token `~1` stands for a slash and `~0` for a tilde.  A token is the name of a member, or the index of an item in its
shortest digits.
-/

namespace RecordSearch.Json

namespace Pointer

/-- The characters that a written token stands for. -/
def unescape : List Char → List Char
  | '~' :: '1' :: rest => '/' :: unescape rest
  | '~' :: '0' :: rest => '~' :: unescape rest
  | c :: rest => c :: unescape rest
  | [] => []

/-- The tokens of a pointer. -/
def tokens? : List Char → Option (List (List Char))
  | [] => some []
  | '/' :: rest => some ((rest.splitOn '/').map unescape)
  | _ => none

/-- The index that a token writes, without a zero before other digits. -/
def index? (token : List Char) : Option Nat :=
  if token.head? = some '0' ∧ token.length ≠ 1 then none else Decimal.ofDigits? token

/-- The part of a value that one token names. -/
def step? (value : Json) (token : List Char) : Option Json :=
  match value with
  | .object members => Members.get? (String.ofList token) members
  | .array items => (index? token).bind fun i => items[i]?
  | _ => none

/-- A token without a tilde stands for itself. -/
theorem unescape_eq_self (token : List Char) (h : '~' ∉ token) : unescape token = token := by
  induction token with
  | nil => rfl
  | cons c rest ih =>
      simp only [List.mem_cons, not_or] at h
      rw [unescape, ih h.2]
      · rintro _ rfl
        exact absurd rfl h.1
      · rintro _ rfl
        exact absurd rfl h.1

end Pointer

/-- The part of a value that a pointer names. -/
def atPointer? (value : Json) (pointer : String) : Option Json :=
  (Pointer.tokens? pointer.toList).bind fun tokens => tokens.foldlM Pointer.step? value

end RecordSearch.Json
