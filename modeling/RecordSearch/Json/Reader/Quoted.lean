import RecordSearch.Json.Reader.Basic

/-!
# Reading strings

A string is read one symbol at a time after its opening quote.  What the next symbol may be is kept in a state: plain
text, or some place within an escape; a character beyond 16 bits is written as two escapes.
-/

namespace RecordSearch.Quoted

/-- Where the reader of a string stands. -/
inductive State where
  /-- Between characters. -/
  | plain
  /-- After a backslash. -/
  | escape
  /-- Before `missing` of the digits of an escape by number that `source` starts with; the others make `value`.  `high`
  is the leading half of a pair. -/
  | digits (high : Option Nat) (missing value : Nat) (source : Source)
  /-- After the leading half of a pair. -/
  | half (high : Nat)
  /-- After the leading half of a pair and a backslash. -/
  | halfEscape (high : Nat)
deriving DecidableEq, Repr

/-- The character of a short escape. -/
def shortEscape? (c : Char) : Option Char :=
  if c = '"' then some '"'
  else if c = '\\' then some '\\'
  else if c = '/' then some '/'
  else if c = 'b' then some '\x08'
  else if c = 'f' then some '\x0c'
  else if c = 'n' then some '\n'
  else if c = 'r' then some '\r'
  else if c = 't' then some '\t'
  else none

/-- The value of a hexadecimal digit. -/
def hexDigit? : Symbol → Option Nat
  | .char c =>
      if c.isDigit then some (c.toNat - '0'.toNat)
      else if 'a' ≤ c ∧ c ≤ 'f' then some (c.toNat - 'a'.toNat + 10)
      else if 'A' ≤ c ∧ c ≤ 'F' then some (c.toNat - 'A'.toNat + 10)
      else none
  | .stray _ => none

/-- The first halves of pairs. -/
def isHigh (n : Nat) : Bool :=
  decide (0xD800 ≤ n ∧ n ≤ 0xDBFF)

/-- The second halves of pairs. -/
def isLow (n : Nat) : Bool :=
  decide (0xDC00 ≤ n ∧ n ≤ 0xDFFF)

/-- The character of a pair. -/
def ofPair (high low : Nat) : Char :=
  Char.ofNat ((high - 0xD800) * 0x400 + (low - 0xDC00) + 0x10000)

/-- The state after the letter of an escape by number, before `rest`. -/
def digitsState (high : Option Nat) (rest : Source) : Except Stop State :=
  if Source.width (rest.take 4) < 4 then .error (.here .endInString [])
  else .ok (.digits high 4 0 rest)

/-- What the number of a finished escape stands for: a character, or the leading half of a pair. -/
def ofNumber (high : Option Nat) (n : Nat) (rest : Source) : Except Stop (Char ⊕ Nat) :=
  match high with
  | none =>
      if isLow n then .error (.here .loneSurrogate rest)
      else if isHigh n then .ok (.inr n)
      else .ok (.inl (Char.ofNat n))
  | some h => if isLow n then .ok (.inl (ofPair h n)) else .error (.here .loneSurrogate rest)

/-- What is read of a string: its characters, the last one first, and the number of its bytes from the first one on
that belongs to no character, if there is one.  An escape counts for the bytes of its character. -/
structure Content where
  reversed : List Char
  broken : Option Nat
deriving DecidableEq, Repr

namespace Content

/-- Nothing is read. -/
def empty : Content := ⟨[], none⟩

/-- One more character is read. -/
def push (content : Content) (c : Char) : Content :=
  ⟨c :: content.reversed, content.broken.map (· + c.utf8Size)⟩

/-- One more byte is read that belongs to no character. -/
def pushStray (content : Content) : Content :=
  { content with broken := some (content.broken.getD 0 + 1) }

/-- The string that ends before `rest`.  The place of a byte that belongs to no character is counted back from the end
of the string. -/
def close (content : Content) (rest : Source) : Reading String :=
  match content.broken with
  | none => .ok (String.ofList content.reversed.reverse, rest)
  | some bytes => .error ⟨[], .lapse .invalidCodePoint, rest.width + bytes⟩

end Content

/-- Reads a string from the given state on, of which `content` is read. -/
def readFrom (state : State) (content : Content) (source : Source) : Reading String :=
  match source with
  | [] => .error (.here .endInString [])
  | s :: rest =>
      match state with
      | .plain =>
          match s with
          | .stray _ => readFrom .plain content.pushStray rest
          | .char c =>
              if c = '"' then
                content.close rest
              else if c = '\\' then
                readFrom .escape content rest
              else if c.toNat < 0x20 then
                .error (.here .controlCharacter rest)
              else
                readFrom .plain (content.push c) rest
      | .escape =>
          if s = .char 'u' then
            match digitsState none rest with
            | .ok state => readFrom state content rest
            | .error stop => .error stop
          else
            match (match s with | .char c => shortEscape? c | .stray _ => none) with
            | some c => readFrom .plain (content.push c) rest
            | none => .error (.peek .invalidEscape (s :: rest))
      | .digits high missing value source =>
          match hexDigit? s with
          | none => .error ⟨[], .lapse .invalidEscape, source.width - 4⟩
          | some d =>
              let value := value * 16 + d
              if 1 < missing then
                readFrom (.digits high (missing - 1) value source) content rest
              else
                match ofNumber high value rest with
                | .ok (.inl c) => readFrom .plain (content.push c) rest
                | .ok (.inr h) => readFrom (.half h) content rest
                | .error stop => .error stop
      | .half high =>
          if s = .char '\\' then readFrom (.halfEscape high) content rest
          else .error (.peek .endOfHexEscape (s :: rest))
      | .halfEscape high =>
          if s = .char 'u' then
            match digitsState (some high) rest with
            | .ok state => readFrom state content rest
            | .error stop => .error stop
          else .error (.peek .endOfHexEscape (s :: rest))

/-- Reads a string after its opening quote. -/
def read (source : Source) : Reading String :=
  readFrom .plain .empty source

end RecordSearch.Quoted
