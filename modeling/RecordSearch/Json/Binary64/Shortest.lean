import RecordSearch.Json.Binary64
import RecordSearch.Text.Decimal

/-!
# Shortest decimal text of a binary64 number

Every decimal between the midpoints to the two neighbours of a number reads back as that number.  The text uses the
coarsest decimal grid that has a point in this interval and, on it, the point nearest to the number.
-/

namespace RecordSearch.Binary64

/-- Lower end of the interval that rounds to the number, in quarters of its last binary place. -/
def lowerQuarters (x : Binary64) : Nat :=
  if x.significand = leastFull ∧ leastExponent < x.exponent then 4 * x.significand - 1 else 4 * x.significand - 2

/-- Upper end of the interval that rounds to the number, in quarters of its last binary place. -/
def upperQuarters (x : Binary64) : Nat :=
  4 * x.significand + 2

/-- The point of the grid of multiples of `10 ^ k` that reads back as the number and is nearest to it; of two points
equally near, the even one. -/
def onGrid? (x : Binary64) (k : Int) : Option Nat :=
  let unit := power 10 k * power 2 (2 - x.exponent)
  let quarter := power 2 (x.exponent - 2) * power 10 (-k)
  let value := 4 * x.significand * quarter
  let inside (c : Nat) : Bool :=
    if x.significand % 2 = 0 then
      decide (x.lowerQuarters * quarter ≤ c * unit ∧ c * unit ≤ x.upperQuarters * quarter)
    else
      decide (x.lowerQuarters * quarter < c * unit ∧ c * unit < x.upperQuarters * quarter)
  let below := value / unit
  match inside below, inside (below + 1) with
  | false, false => none
  | true, false => some below
  | false, true => some (below + 1)
  | true, true => some (divNearest value unit)

/-- Digits and power of ten of the shortest decimal of a number other than zero. -/
def shortest (x : Binary64) : Nat × Int :=
  ((List.range 650).findSome? fun (i : Nat) =>
    (x.onGrid? (309 - (i : Int))).map fun digits => (digits, 309 - (i : Int))).getD (0, 0)

/-- Powers of ten of the leading digit for which the number is written without an exponent. -/
def isPositional (power : Int) : Bool :=
  decide (-5 ≤ power ∧ power < 16)

/-- The magnitude written with a decimal point and at least one place after it. -/
def positional (digits : List Char) (k : Int) : List Char :=
  if 0 ≤ k then
    digits ++ List.replicate k.toNat '0' ++ ['.', '0']
  else
    let places := (-k).toNat
    if places < digits.length then
      digits.take (digits.length - places) ++ '.' :: digits.drop (digits.length - places)
    else
      '0' :: '.' :: List.replicate (places - digits.length) '0' ++ digits

/-- The magnitude written with one digit before the point and a signed power of ten. -/
def scientific (digits : List Char) (power : Int) : List Char :=
  let mantissa :=
    match digits with
    | [] => []
    | [d] => [d]
    | d :: rest => d :: '.' :: rest
  mantissa ++ 'e' :: (if power < 0 then '-' else '+') :: Decimal.digits power.natAbs

/-- The text of a number. -/
def text (x : Binary64) : String :=
  let sign := if x.negative then ['-'] else []
  let magnitude :=
    if x.significand = 0 then
      ['0', '.', '0']
    else
      let (value, k) := x.shortest
      let digits := Decimal.digits value
      let power := k + digits.length - 1
      if isPositional power then positional digits k else scientific digits power
  String.ofList (sign ++ magnitude)

end RecordSearch.Binary64
