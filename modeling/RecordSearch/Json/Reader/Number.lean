import RecordSearch.Json.Reader.Basic

/-!
# Reading numbers

An integer that fits in 64 bits is read as it stands.  Every other number is read as a decimal: the digits that fit in
a 64-bit significand, and the power of ten that accounts for the rest.
-/

namespace RecordSearch.Number

/-- The bound of a significand. -/
def significandLimit : Nat := Nat.pow 2 64

/-- The least magnitude for which only the negative integer has 64 bits with sign. -/
def signedLimit : Nat := Nat.pow 2 63

/-- The bound of a written exponent. -/
def exponentLimit : Nat := Nat.pow 2 31

/-- Digits appended to a number as long as it stays below a limit; the digits that no longer fit are left. -/
def absorb (limit : Nat) : Nat → List Nat → Nat × List Nat
  | n, [] => (n, [])
  | n, d :: ds => if n * 10 + d < limit then absorb limit (n * 10 + d) ds else (n, d :: ds)

/-- The binary64 number of a decimal that ends where `rest` begins. -/
def ofDecimal (negative : Bool) (significand : Nat) (exponent : Int) (rest : Source) : Reading Number :=
  match Binary64.ofDecimal? negative significand exponent with
  | some x => .ok (.float x, rest)
  | none => .error (.here .numberOutOfRange rest)

/-- The number of an integer without fraction and exponent. -/
def ofInteger (negative : Bool) (n : Nat) : Number :=
  if negative then
    if 0 < n ∧ n ≤ signedLimit then .int (Int64.ofInt (-(n : Int)))
    else .float ((Binary64.ofRatio? true n 1).getD (.zero true))
  else if n < signedLimit then .int (Int64.ofNat n)
  else .wide (UInt64.ofNat n)

/-- Reads the exponent after its letter. -/
def readExponent (negative : Bool) (significand : Nat) (exponent : Int) (source : Source) : Reading Number :=
  let (down, source) :=
    match source with
    | .char '-' :: rest => (true, rest)
    | .char '+' :: rest => (false, rest)
    | _ => (false, source)
  match Source.spanDigits source with
  | ([], rest) =>
      match rest with
      | [] => .error (.here .endInValue [])
      | _ :: _ => .error (.peek .invalidNumber rest)
  | (digits, rest) =>
      match absorb exponentLimit 0 digits with
      | (k, []) => ofDecimal negative significand (if down then exponent - k else exponent + k) rest
      | (_, _ :: unused) =>
          if significand ≠ 0 ∧ !down then
            .error ⟨[], .lapse .numberOutOfRange, rest.width + unused.length⟩
          else
            .ok (.float (.zero negative), rest)

/-- The next symbol is the letter of an exponent. -/
def startsExponent : Source → Bool
  | .char c :: _ => c == 'e' || c == 'E'
  | _ => false

/-- Reads the fraction after its point. -/
def readFraction (negative : Bool) (significand : Nat) (exponent : Int) (source : Source) : Reading Number :=
  match Source.spanDigits source with
  | ([], []) => .error (.peek .endInValue [])
  | ([], rest) => .error (.peek .invalidNumber rest)
  | (digits, rest) =>
      let (significand, unused) := absorb significandLimit significand digits
      let exponent := exponent - (digits.length - unused.length)
      if startsExponent rest then
        readExponent negative significand exponent rest.tail
      else
        ofDecimal negative significand exponent rest

/-- Reads what may follow the digits of an integer, `exponent` of which are left out of the significand. -/
def readTail (negative : Bool) (significand exponent : Nat) (source : Source) : Reading Number :=
  match source with
  | .char '.' :: rest => readFraction negative significand exponent rest
  | _ =>
      if startsExponent source then
        readExponent negative significand exponent source.tail
      else if exponent = 0 then
        .ok (ofInteger negative significand, source)
      else
        ofDecimal negative significand exponent source

/-- Reads a number after its sign. -/
def readUnsigned (negative : Bool) (source : Source) : Reading Number :=
  match Source.spanDigits source with
  | ([], []) => .error (.here .endInValue [])
  | ([], rest) => .error (.peek .invalidNumber rest)
  | (0 :: digits, rest) =>
      match digits with
      | [] => readTail negative 0 0 rest
      | _ :: _ => .error ⟨[], .lapse .invalidNumber, rest.width + digits.length - 1⟩
  | (digits, rest) =>
      let (significand, unused) := absorb significandLimit 0 digits
      readTail negative significand unused.length rest

/-- Reads a number. -/
def read : Source → Reading Number
  | .char '-' :: rest => readUnsigned true rest
  | source => readUnsigned false source

end RecordSearch.Number
