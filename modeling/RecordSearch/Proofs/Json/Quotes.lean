import RecordSearch.Json.Printer
import RecordSearch.Json.Reader.Quoted

/-!
# Strings in texts

Which symbols write a string between quotes.  The reader of a string passes through states; from the state between two
characters it comes to the next such state by the symbols of one character.

* `Writes`: the symbols of one character, by itself or in one of three kinds of escapes.
* `readFrom_writes`, `step_of_ok`: what the reader does with them, and that it can do nothing else.
* `Spells`: the symbols of a string after its opening quote; `read_eq_ok_iff`: exactly these are read.
* `spells_escaped`: the written form of a string is one of them.
-/

namespace RecordSearch

theorem Symbol.width_pos (s : Symbol) : 0 < s.width := by
  cases s with
  | char c => exact c.utf8Size_pos
  | stray _ => exact Nat.one_pos

namespace Source

theorem width_nil : width [] = 0 :=
  rfl

theorem width_cons (s : Symbol) (source : Source) : width (s :: source) = s.width + width source := by
  have hshift : ∀ n, source.foldl (fun n s => n + s.width) n = n + width source := by
    induction source with
    | nil => exact fun n => rfl
    | cons t source ih =>
        intro n
        rw [width, List.foldl_cons, List.foldl_cons, ih, ih]
        omega
  rw [width, List.foldl_cons, hshift, Nat.zero_add]

/-- Every symbol has a byte. -/
theorem length_le_width (source : Source) : source.length ≤ source.width := by
  induction source with
  | nil => exact Nat.le_refl 0
  | cons s source ih =>
      have hs := s.width_pos
      rw [List.length_cons, width_cons]
      omega

end Source

namespace Quoted

/-! ## Characters -/

/-- The symbols are the hexadecimal digits of these values. -/
def HexDigits (text : Source) (ds : List Nat) : Prop :=
  text.map hexDigit? = ds.map some

/-- The number that begins with `value` and goes on with these digits. -/
def hexValue (value : Nat) (ds : List Nat) : Nat :=
  ds.foldl (fun n d => n * 16 + d) value

/-- The four hexadecimal digits of a number. -/
def HexNumber (text : Source) (n : Nat) : Prop :=
  ∃ ds, HexDigits text ds ∧ ds.length = 4 ∧ hexValue 0 ds = n

/-- The symbols that write a character within a string. -/
inductive Writes : Source → Char → Prop
  | plain {c : Char} (hquote : c ≠ '"') (hbackslash : c ≠ '\\') (hcontrol : ¬ c.toNat < 0x20) : Writes [.char c] c
  | short {letter c : Char} (h : shortEscape? letter = some c) : Writes [.char '\\', .char letter] c
  | number {digits : Source} {n : Nat} (h : HexNumber digits n) (hlow : isLow n = false) (hhigh : isHigh n = false) :
      Writes (.char '\\' :: .char 'u' :: digits) (Char.ofNat n)
  | pair {first second : Source} {high low : Nat} (hfirst : HexNumber first high) (hhigh : isHigh high = true)
      (hsecond : HexNumber second low) (hlow : isLow low = true) :
      Writes (.char '\\' :: .char 'u' :: (first ++ .char '\\' :: .char 'u' :: second)) (ofPair high low)

/-- The symbols of a string with the quote at its end. -/
inductive Spells : Source → List Char → Prop
  | close : Spells [.char '"'] []
  | char {first rest : Source} {c : Char} {cs : List Char} (hfirst : Writes first c) (hrest : Spells rest cs) :
      Spells (first ++ rest) (c :: cs)

theorem length_after_writes {text : Source} {c : Char} (h : Writes text c) (rest : Source) :
    rest.length < (text ++ rest).length := by
  have hpos : 0 < text.length := by
    cases h with
    | plain _ _ _ => exact Nat.succ_pos _
    | short _ => exact Nat.succ_pos _
    | number _ _ _ => exact Nat.succ_pos _
    | pair _ _ _ _ => exact Nat.succ_pos _
  rw [List.length_append]
  omega

/-! ## Escapes by number -/

section

variable {high : Option Nat} {content : Content} {x : String × Source}

/-- Goes on after the last digit of an escape by number. -/
def afterNumber (high : Option Nat) (content : Content) (n : Nat) (rest : Source) : Reading String :=
  match ofNumber high n rest with
  | .ok (.inl c) => readFrom .plain (content.push c) rest
  | .ok (.inr h) => readFrom (.half h) content rest
  | .error stop => .error stop

/-- Goes on after the letter of an escape by number. -/
def afterLetter (high : Option Nat) (content : Content) (source : Source) : Reading String :=
  match digitsState high source with
  | .ok state => readFrom state content source
  | .error stop => .error stop

theorem readFrom_hex (missing value : Nat) (all rest : Source) (s : Symbol) :
    readFrom (.digits high missing value all) content (s :: rest) =
      match hexDigit? s with
      | none => .error ⟨[], .lapse .invalidEscape, all.width - 4⟩
      | some d =>
          if 1 < missing then readFrom (.digits high (missing - 1) (value * 16 + d) all) content rest
          else afterNumber high content (value * 16 + d) rest :=
  rfl

theorem readFrom_digit {all rest : Source} {missing value d : Nat} {s : Symbol} (hs : hexDigit? s = some d) :
    readFrom (.digits high missing value all) content (s :: rest) =
      if 1 < missing then readFrom (.digits high (missing - 1) (value * 16 + d) all) content rest
      else afterNumber high content (value * 16 + d) rest := by
  rw [readFrom_hex, hs]

theorem readFrom_digits (all rest : Source) {text : Source} {value d : Nat} {ds : List Nat}
    (h : HexDigits text (d :: ds)) :
    readFrom (.digits high (ds.length + 1) value all) content (text ++ rest) =
      afterNumber high content (hexValue value (d :: ds)) rest := by
  induction ds generalizing text value d with
  | nil =>
      obtain ⟨s, rest, rfl, hs, hnil⟩ := List.map_eq_cons_iff.mp h
      obtain rfl := List.map_eq_nil_iff.mp hnil
      exact readFrom_digit hs
  | cons e ds ih =>
      obtain ⟨s, rest, rfl, hs, hrest⟩ := List.map_eq_cons_iff.mp h
      rw [List.cons_append, readFrom_digit hs, if_pos (by simp), List.length_cons, Nat.add_sub_cancel]
      exact ih hrest

theorem digits_of_ok {all source : Source} {missing value : Nat}
    (h : readFrom (.digits high (missing + 1) value all) content source = .ok x) :
    ∃ text ds rest, source = text ++ rest ∧ HexDigits text ds ∧ ds.length = missing + 1 := by
  induction missing generalizing source value with
  | zero =>
      cases source with
      | nil => cases h
      | cons s rest =>
          cases hs : hexDigit? s with
          | none =>
              rw [readFrom_hex, hs] at h
              cases h
          | some d => exact ⟨[s], [d], rest, rfl, congrArg (fun d => [d]) hs, rfl⟩
  | succ missing ih =>
      cases source with
      | nil => cases h
      | cons s rest =>
          cases hs : hexDigit? s with
          | none =>
              rw [readFrom_hex, hs] at h
              cases h
          | some d =>
              rw [readFrom_digit hs, if_pos (by omega)] at h
              obtain ⟨text, ds, after, rfl, hdigits, hlength⟩ := ih h
              refine ⟨s :: text, d :: ds, after, rfl, ?_, congrArg (· + 1) hlength⟩
              rw [HexDigits, List.map_cons, List.map_cons, hs, hdigits]

theorem length_of_hexDigits {text : Source} {ds : List Nat} (h : HexDigits text ds) : text.length = ds.length := by
  simpa using congrArg List.length h

theorem afterLetter_number {digits : Source} {n : Nat} (h : HexNumber digits n) (rest : Source) :
    afterLetter high content (digits ++ rest) = afterNumber high content n rest := by
  obtain ⟨ds, hdigits, hlength, rfl⟩ := h
  have hwidth : ¬ Source.width ((digits ++ rest).take 4) < 4 := by
    have hle := Source.length_le_width ((digits ++ rest).take 4)
    have hfour := length_of_hexDigits hdigits
    rw [List.length_take, List.length_append] at hle
    omega
  rw [afterLetter, digitsState, if_neg hwidth]
  match ds, hlength, hdigits with
  | d :: ds, hlength, hdigits =>
      have hmissing : ds.length + 1 = 4 := hlength
      dsimp only
      rw [← hmissing]
      exact readFrom_digits _ rest hdigits

/-- Only four digits can follow the letter of an escape by number. -/
theorem number_of_ok {source : Source} (h : afterLetter high content source = .ok x) :
    ∃ digits n rest, source = digits ++ rest ∧ HexNumber digits n ∧ afterNumber high content n rest = .ok x := by
  have hdigits := h
  rw [afterLetter, digitsState] at hdigits
  split at hdigits
  · rename_i hstate
    split at hstate
    · cases hstate
    · cases hstate
      obtain ⟨text, ds, rest, rfl, htext, hlength⟩ := digits_of_ok hdigits
      have hnumber : HexNumber text (hexValue 0 ds) := ⟨ds, htext, hlength, rfl⟩
      rw [afterLetter_number hnumber] at h
      exact ⟨text, _, rest, rfl, hnumber, h⟩
  · cases hdigits

end

/-! ## One character at a time -/

section

variable {content : Content} {x : String × Source}

theorem readFrom_character (content : Content) (c : Char) (rest : Source) :
    readFrom .plain content (.char c :: rest) =
      if c = '"' then content.close rest
      else if c = '\\' then readFrom .escape content rest
      else if c.toNat < 0x20 then .error (.here .controlCharacter rest)
      else readFrom .plain (content.push c) rest :=
  rfl

theorem readFrom_escape_symbol (content : Content) (s : Symbol) (rest : Source) :
    readFrom .escape content (s :: rest) =
      if s = .char 'u' then afterLetter none content rest
      else
        match (match s with | .char c => shortEscape? c | .stray _ => none) with
        | some c => readFrom .plain (content.push c) rest
        | none => .error (.peek .invalidEscape (s :: rest)) :=
  rfl

theorem readFrom_half_symbol (high : Nat) (content : Content) (s : Symbol) (rest : Source) :
    readFrom (.half high) content (s :: rest) =
      if s = .char '\\' then readFrom (.halfEscape high) content rest
      else .error (.peek .endOfHexEscape (s :: rest)) :=
  rfl

theorem readFrom_halfEscape_symbol (high : Nat) (content : Content) (s : Symbol) (rest : Source) :
    readFrom (.halfEscape high) content (s :: rest) =
      if s = .char 'u' then afterLetter (some high) content rest
      else .error (.peek .endOfHexEscape (s :: rest)) :=
  rfl

theorem readFrom_escape (content : Content) (rest : Source) :
    readFrom .plain content (.char '\\' :: rest) = readFrom .escape content rest :=
  rfl

theorem readFrom_escape_number (content : Content) (rest : Source) :
    readFrom .escape content (.char 'u' :: rest) = afterLetter none content rest :=
  rfl

theorem readFrom_half (high : Nat) (content : Content) (rest : Source) :
    readFrom (.half high) content (.char '\\' :: .char 'u' :: rest) = afterLetter (some high) content rest :=
  rfl

theorem afterNumber_character {n : Nat} (hlow : isLow n = false) (hhigh : isHigh n = false) (rest : Source) :
    afterNumber none content n rest = readFrom .plain (content.push (Char.ofNat n)) rest := by
  simp only [afterNumber, ofNumber, hlow, hhigh, Bool.false_eq_true, if_false]

theorem not_isLow_of_isHigh {n : Nat} (h : isHigh n = true) : isLow n = false := by
  rw [isHigh, decide_eq_true_eq] at h
  rw [isLow, decide_eq_false_iff_not]
  omega

theorem afterNumber_half {n : Nat} (hhigh : isHigh n = true) (rest : Source) :
    afterNumber none content n rest = readFrom (.half n) content rest := by
  simp only [afterNumber, ofNumber, not_isLow_of_isHigh hhigh, hhigh, Bool.false_eq_true, if_false, if_true]

theorem afterNumber_pair {high n : Nat} (hlow : isLow n = true) (rest : Source) :
    afterNumber (some high) content n rest = readFrom .plain (content.push (ofPair high n)) rest := by
  simp only [afterNumber, ofNumber, hlow, if_true]

theorem readFrom_short {letter c : Char} (h : shortEscape? letter = some c) (rest : Source) :
    readFrom .escape content (.char letter :: rest) = readFrom .plain (content.push c) rest := by
  have hletter : Symbol.char letter ≠ .char 'u' := by
    intro heq
    obtain rfl := Symbol.char.inj heq
    cases h
  rw [readFrom_escape_symbol, if_neg hletter]
  simp only [h]

/-- The symbols of a character are read as the character. -/
theorem readFrom_writes {text : Source} {c : Char} (h : Writes text c) (rest : Source) :
    readFrom .plain content (text ++ rest) = readFrom .plain (content.push c) rest := by
  cases h with
  | plain hquote hbackslash hcontrol =>
      rw [List.cons_append, readFrom_character, if_neg hquote, if_neg hbackslash, if_neg hcontrol, List.nil_append]
  | short h => exact readFrom_short h rest
  | number h hlow hhigh =>
      rw [List.cons_append, List.cons_append, readFrom_escape, readFrom_escape_number, afterLetter_number h,
        afterNumber_character hlow hhigh]
  | pair hfirst hhigh hsecond hlow =>
      rw [List.cons_append, List.cons_append, readFrom_escape, readFrom_escape_number, List.append_assoc,
        afterLetter_number hfirst, afterNumber_half hhigh, List.cons_append, List.cons_append, readFrom_half,
        afterLetter_number hsecond, afterNumber_pair hlow]

theorem half_of_ok {high : Nat} {source : Source} (h : readFrom (.half high) content source = .ok x) :
    ∃ second low rest, source = .char '\\' :: .char 'u' :: (second ++ rest) ∧ HexNumber second low ∧
      isLow low = true ∧ readFrom .plain (content.push (ofPair high low)) rest = .ok x := by
  rcases source with _ | ⟨s, source⟩
  · cases h
  by_cases hs : s = .char '\\'
  · subst hs
    rcases source with _ | ⟨s, source⟩
    · cases h
    by_cases hs : s = .char 'u'
    · subst hs
      rw [readFrom_half] at h
      obtain ⟨second, low, rest, rfl, hnumber, h⟩ := number_of_ok h
      cases hlow : isLow low with
      | true =>
          rw [afterNumber_pair hlow] at h
          exact ⟨second, low, rest, rfl, hnumber, hlow, h⟩
      | false => simp [afterNumber, ofNumber, hlow] at h
    · simp [readFrom_half_symbol, readFrom_halfEscape_symbol, hs] at h
  · simp [readFrom_half_symbol, hs] at h

theorem escape_of_ok {source : Source} (h : readFrom .escape content source = .ok x) :
    ∃ text c rest, .char '\\' :: source = text ++ rest ∧ Writes text c ∧
      readFrom .plain (content.push c) rest = .ok x := by
  rcases source with _ | ⟨s, source⟩
  · cases h
  by_cases hs : s = .char 'u'
  · subst hs
    rw [readFrom_escape_number] at h
    obtain ⟨digits, n, rest, rfl, hnumber, h⟩ := number_of_ok h
    cases hhigh : isHigh n with
    | true =>
        rw [afterNumber_half hhigh] at h
        obtain ⟨second, low, rest, rfl, hsecond, hlow, h⟩ := half_of_ok h
        exact ⟨_, _, rest, by simp, Writes.pair hnumber hhigh hsecond hlow, h⟩
    | false =>
        cases hlow : isLow n with
        | true => simp [afterNumber, ofNumber, hlow] at h
        | false =>
            rw [afterNumber_character hlow hhigh] at h
            exact ⟨_, _, rest, rfl, Writes.number hnumber hlow hhigh, h⟩
  · cases s with
    | stray b => simp [readFrom_escape_symbol] at h
    | char letter =>
        cases hletter : shortEscape? letter with
        | none => simp [readFrom_escape_symbol, hs, hletter] at h
        | some c =>
            rw [readFrom_short hletter] at h
            exact ⟨_, c, source, rfl, Writes.short hletter, h⟩

/-- A reader that succeeds is at the end of the string, before a byte that belongs to no character, or before the
symbols of a character. -/
theorem step_of_ok {source : Source} (h : readFrom .plain content source = .ok x) :
    (∃ rest, source = .char '"' :: rest ∧ content.close rest = .ok x) ∨
      (∃ b rest, source = .stray b :: rest ∧ readFrom .plain content.pushStray rest = .ok x) ∨
        ∃ text c rest, source = text ++ rest ∧ Writes text c ∧ readFrom .plain (content.push c) rest = .ok x := by
  rcases source with _ | ⟨s, source⟩
  · cases h
  cases s with
  | stray b => exact Or.inr (Or.inl ⟨b, source, rfl, h⟩)
  | char c =>
      by_cases hquote : c = '"'
      · subst hquote
        exact Or.inl ⟨source, rfl, h⟩
      by_cases hbackslash : c = '\\'
      · subst hbackslash
        exact Or.inr (Or.inr (escape_of_ok h))
      by_cases hcontrol : c.toNat < 0x20
      · rw [readFrom_character, if_neg hquote, if_neg hbackslash, if_pos hcontrol] at h
        cases h
      · rw [readFrom_character, if_neg hquote, if_neg hbackslash, if_neg hcontrol] at h
        exact Or.inr (Or.inr ⟨[.char c], c, source, rfl, Writes.plain hquote hbackslash hcontrol, h⟩)

end

/-! ## Strings -/

/-- A string with a byte that belongs to no character is never read. -/
theorem not_ok_of_broken {content : Content} {source : Source} {x : String × Source} (hbroken : content.broken ≠ none) :
    readFrom .plain content source ≠ .ok x := by
  -- By induction on what is left: the number of bytes counted back may change, but it stays there to the end.
  induction hn : source.length using Nat.strongRecOn generalizing content source with
  | ind n ih =>
      subst hn
      intro h
      rcases step_of_ok h with ⟨rest, rfl, hclose⟩ | ⟨b, rest, rfl, hrest⟩ | ⟨text, c, rest, rfl, hwrites, hrest⟩
      · rw [Content.close] at hclose
        split at hclose
        · rename_i hnone
          exact hbroken hnone
        · cases hclose
      · exact ih _ (Nat.lt_succ_self _) (Option.some_ne_none _) rfl hrest
      · exact ih _ (length_after_writes hwrites rest) (by simpa [Content.push] using hbroken) rfl hrest

theorem spells_of_ok {reversed : List Char} {source rest : Source} {s : String}
    (h : readFrom .plain ⟨reversed, none⟩ source = .ok (s, rest)) :
    ∃ text cs, source = text ++ rest ∧ Spells text cs ∧ s = String.ofList (reversed.reverse ++ cs) := by
  induction hn : source.length using Nat.strongRecOn generalizing reversed source with
  | ind n ih =>
      subst hn
      rcases step_of_ok h with ⟨after, rfl, hclose⟩ | ⟨b, after, rfl, hafter⟩ | ⟨text, c, after, rfl, hwrites, hafter⟩
      · cases hclose
        exact ⟨[.char '"'], [], rfl, Spells.close, by rw [List.append_nil]⟩
      · exact absurd hafter (not_ok_of_broken (Option.some_ne_none _))
      · obtain ⟨body, cs, rfl, hspells, rfl⟩ := ih _ (length_after_writes hwrites after) hafter rfl
        exact ⟨text ++ body, c :: cs, by rw [List.append_assoc], Spells.char hwrites hspells, by simp⟩

theorem readFrom_spells {text : Source} {cs : List Char} (h : Spells text cs) (reversed : List Char) (rest : Source) :
    readFrom .plain ⟨reversed, none⟩ (text ++ rest) = .ok (String.ofList (reversed.reverse ++ cs), rest) := by
  induction h generalizing reversed with
  | close =>
      rw [List.append_nil]
      rfl
  | @char first body c cs hfirst _ ih =>
      rw [List.append_assoc, readFrom_writes hfirst]
      exact (ih (c :: reversed)).trans (by simp)

/-- Strings are read from exactly the symbols that spell them. -/
theorem read_eq_ok_iff (source rest : Source) (s : String) :
    read source = .ok (s, rest) ↔ ∃ text, source = text ++ rest ∧ Spells text s.toList := by
  constructor
  · intro h
    obtain ⟨text, cs, hsource, hspells, rfl⟩ := spells_of_ok h
    exact ⟨text, hsource, by simpa using hspells⟩
  · rintro ⟨text, rfl, hspells⟩
    exact (readFrom_spells hspells [] rest).trans (by simp)

/-! ## Written strings -/

theorem hexDigit?_digitChar : ∀ n < 16, hexDigit? (.char (Nat.digitChar n)) = some n := by
  decide

theorem writes_control {c : Char} (hcontrol : c.toNat < 0x20) :
    Writes (['\\', 'u', '0', '0', Nat.digitChar (c.toNat / 16), Nat.digitChar (c.toNat % 16)].map .char) c := by
  have hnumber : HexNumber (['0', '0', Nat.digitChar (c.toNat / 16), Nat.digitChar (c.toNat % 16)].map .char)
      c.toNat := by
    refine ⟨[0, 0, c.toNat / 16, c.toNat % 16], ?_, rfl, ?_⟩
    · have hfirst := hexDigit?_digitChar (c.toNat / 16) (by omega)
      have hsecond := hexDigit?_digitChar (c.toNat % 16) (by omega)
      rw [HexDigits, List.map_map]
      simp only [List.map_cons, List.map_nil, Function.comp_apply, hfirst, hsecond]
      rfl
    · simp only [hexValue, List.foldl_cons, List.foldl_nil]
      omega
  have hlow : isLow c.toNat = false := by
    rw [isLow, decide_eq_false_iff_not]
    omega
  have hhigh : isHigh c.toNat = false := by
    rw [isHigh, decide_eq_false_iff_not]
    omega
  have hwrites := Writes.number hnumber hlow hhigh
  rwa [Char.ofNat_toNat] at hwrites

/-- The written form of a character within a string. -/
theorem writes_escapedChar (c : Char) : Writes ((Json.escapedChar c).map .char) c := by
  rw [Json.escapedChar]
  split
  · subst c
    exact Writes.short rfl
  rename_i hquote
  split
  · subst c
    exact Writes.short rfl
  rename_i hbackslash
  iterate 5
    split
    · subst c
      exact Writes.short rfl
  split
  · rename_i hcontrol
    exact writes_control hcontrol
  · rename_i hcontrol
    exact Writes.plain hquote hbackslash hcontrol

/-- The written form of a string after its opening quote. -/
theorem spells_escaped (cs : List Char) : Spells ((cs.flatMap Json.escapedChar ++ ['"']).map .char) cs := by
  induction cs with
  | nil => exact Spells.close
  | cons c cs ih =>
      rw [List.flatMap_cons, List.append_assoc, List.map_append]
      exact Spells.char (writes_escapedChar c) ih

end Quoted
end RecordSearch
