/-!
# Styled words

A word is styled by a control sequence before it and another one behind it that ends all styles.
-/

namespace RecordSearch

/-- How a word stands out. -/
inductive Style where
  | bold
  | dimmed
  | green
  | cyan
deriving DecidableEq, Repr

namespace Style

/-- The control sequence that starts a style. -/
def opening : Style → List Char
  | bold => "\x1b[1m".toList
  | dimmed => "\x1b[2m".toList
  | green => "\x1b[32m".toList
  | cyan => "\x1b[36m".toList

/-- The control sequence that ends all styles. -/
def closing : List Char := "\x1b[0m".toList

/-- The text with `opening` once more behind every sequence in it that ends all styles; `skip` characters are passed
over first. -/
def reopenFrom (opening : List Char) (skip : Nat) : List Char → List Char
  | [] => []
  | c :: rest =>
      match skip with
      | skip + 1 =>
          if skip = 0 then c :: opening ++ reopenFrom opening 0 rest else c :: reopenFrom opening skip rest
      | 0 =>
          if closing.isPrefixOf (c :: rest) then c :: reopenFrom opening (closing.length - 1) rest
          else c :: reopenFrom opening 0 rest

/-- A word in a style, or the plain word without `color`. -/
def apply (style : Style) (color : Bool) (word : String) : String :=
  if color then
    String.ofList (style.opening ++ reopenFrom style.opening 0 word.toList ++ closing)
  else
    word

/-- Without color a word stays as it is. -/
@[simp] theorem apply_false (style : Style) (word : String) : style.apply false word = word := rfl

end Style
end RecordSearch
