import RecordSearch.Json.Reader.Number

/-!
# Numbers in texts

Which symbols write a number, and where a number ends that something else follows.

* `Source.Digits`, `Source.spanDigits_eq_iff`: digits are read as far as they go.
* `IsNumeral`: a sign, digits without a leading zero, a fraction and an exponent.
* `Ends`: what may follow a numeral without going on with it.
* `read_local`: a reader that succeeds has read a numeral, and reads it alike before everything that may follow it.
* `Spells`: the number of a numeral; `read_eq_ok_iff`: exactly these are read.
-/

namespace RecordSearch

namespace Source

/-- No digit comes next. -/
def NoDigit (rest : Source) : Prop :=
  ∀ s ∈ rest.head?, digit? s = none

/-- The symbols are the digits of these values. -/
def Digits (text : Source) (ds : List Nat) : Prop :=
  text.map digit? = ds.map some

theorem digits_cons {s : Symbol} {d : Nat} {text : Source} {ds : List Nat} (hs : digit? s = some d)
    (h : Digits text ds) : Digits (s :: text) (d :: ds) := by
  rw [Digits, List.map_cons, List.map_cons, hs, h]

theorem digit?_of_mem_digits {text : Source} {ds : List Nat} (h : Digits text ds) {s : Symbol} (hs : s ∈ text) :
    ∃ d, digit? s = some d := by
  have hmem : digit? s ∈ ds.map some := by
    rw [← h]
    exact List.mem_map_of_mem hs
  obtain ⟨d, _, hd⟩ := List.mem_map.mp hmem
  exact ⟨d, hd.symm⟩

/-- Digits are read as far as they go. -/
theorem spanDigits_eq_iff (source : Source) (ds : List Nat) (rest : Source) :
    spanDigits source = (ds, rest) ↔ ∃ text, source = text ++ rest ∧ Digits text ds ∧ NoDigit rest := by
  constructor
  · intro h
    induction source generalizing ds with
    | nil =>
        cases h
        exact ⟨[], rfl, rfl, nofun⟩
    | cons s source ih =>
        rw [spanDigits] at h
        split at h
        · rename_i d hd
          cases h
          obtain ⟨text, hsource, hdigits, hend⟩ := ih _ rfl
          exact ⟨s :: text, by rw [List.cons_append, ← hsource], digits_cons hd hdigits, hend⟩
        · rename_i hnone
          cases h
          exact ⟨[], rfl, rfl, by simpa [NoDigit] using hnone⟩
  · rintro ⟨text, rfl, hdigits, hend⟩
    induction text generalizing ds with
    | nil =>
        obtain rfl : ds = [] := List.map_eq_nil_iff.mp hdigits.symm
        cases rest with
        | nil => rfl
        | cons s rest => rw [List.nil_append, spanDigits, hend s rfl]
    | cons s text ih =>
        cases ds with
        | nil => cases hdigits
        | cons d ds =>
            obtain ⟨hs, hdigits⟩ := List.cons.inj hdigits
            rw [List.cons_append, spanDigits, hs, ih ds hdigits]

end Source

namespace Number

open Source

/-! ## Numerals -/

/-- Digits without a leading zero, but for a single one. -/
inductive Whole : Source → Prop
  | zero {text : Source} (h : Digits text [0]) : Whole text
  | digits {text : Source} {d : Nat} {ds : List Nat} (hd : d ≠ 0) (h : Digits text (d :: ds)) : Whole text

/-- A point and digits, or nothing. -/
inductive Fraction : Source → Prop
  | absent : Fraction []
  | present {text : Source} {ds : List Nat} (h : Digits text ds) (hne : ds ≠ []) : Fraction (.char '.' :: text)

/-- At most one sign. -/
inductive Sign : Source → Prop
  | absent : Sign []
  | minus : Sign [.char '-']
  | plus : Sign [.char '+']

/-- The letter of an exponent. -/
def IsLetter (s : Symbol) : Prop :=
  s = .char 'e' ∨ s = .char 'E'

/-- A letter, at most one sign and digits, or nothing. -/
inductive Exponent : Source → Prop
  | absent : Exponent []
  | present {letter : Symbol} {sign text : Source} {ds : List Nat} (hletter : IsLetter letter) (hsign : Sign sign)
      (h : Digits text ds) (hne : ds ≠ []) : Exponent (letter :: (sign ++ text))

/-- A minus or nothing, digits, a fraction and an exponent. -/
inductive IsNumeral : Source → Prop
  | positive {whole fraction exponent : Source} (hwhole : Whole whole) (hfraction : Fraction fraction)
      (hexponent : Exponent exponent) : IsNumeral (whole ++ (fraction ++ exponent))
  | negative {whole fraction exponent : Source} (hwhole : Whole whole) (hfraction : Fraction fraction)
      (hexponent : Exponent exponent) : IsNumeral (.char '-' :: (whole ++ (fraction ++ exponent)))

/-- The rest goes on neither with digits nor with an exponent that is still missing. -/
structure Halts (exponent rest : Source) : Prop where
  digit : NoDigit rest
  letter : startsExponent rest = true → exponent ≠ []

/-- The rest goes on neither with digits nor with a fraction or an exponent that is still missing. -/
structure Stops (fraction exponent rest : Source) : Prop extends Halts exponent rest where
  point : rest.head? = some (.char '.') → fraction ≠ [] ∨ exponent ≠ []

/-- The rest does not go on with the numeral. -/
structure Ends (text rest : Source) : Prop where
  digit : NoDigit rest
  letter : startsExponent rest = true → ∃ s ∈ text, IsLetter s
  point : rest.head? = some (.char '.') → .char '.' ∈ text ∨ ∃ s ∈ text, IsLetter s

theorem startsExponent_eq_true_iff (source : Source) :
    startsExponent source = true ↔ ∃ letter rest, IsLetter letter ∧ source = letter :: rest := by
  constructor
  · intro h
    rw [startsExponent.eq_def] at h
    split at h
    · rename_i c rest
      refine ⟨_, rest, ?_, rfl⟩
      simpa [IsLetter] using h
    · cases h
  · rintro ⟨letter, rest, rfl | rfl, rfl⟩
    · rfl
    · rfl

theorem digit?_of_isLetter {s : Symbol} (h : IsLetter s) : digit? s = none := by
  rcases h with rfl | rfl
  · rfl
  · rfl

theorem not_isLetter_of_mem_digits {text : Source} {ds : List Nat} (h : Digits text ds) {s : Symbol} (hs : s ∈ text) :
    ¬ IsLetter s := by
  intro hletter
  obtain ⟨d, hd⟩ := digit?_of_mem_digits h hs
  rw [digit?_of_isLetter hletter] at hd
  cases hd

theorem exists_digits_of_whole {whole : Source} (h : Whole whole) : ∃ d ds, Digits whole (d :: ds) := by
  cases h with
  | zero h => exact ⟨_, _, h⟩
  | digits _ h => exact ⟨_, _, h⟩

/-! ## Reading -/

theorem ofDecimal_local {negative : Bool} {significand : Nat} {exponent : Int} {source rest : Source} {n : Number}
    (h : ofDecimal negative significand exponent source = .ok (n, rest)) :
    rest = source ∧ ∀ rest', ofDecimal negative significand exponent rest' = .ok (n, rest') := by
  rw [ofDecimal] at h
  split at h
  · rename_i x hx
    cases h
    exact ⟨rfl, fun rest' => by rw [ofDecimal, hx]⟩
  · cases h

/-- Reads the digits of an exponent. -/
def readPower (negative : Bool) (significand : Nat) (exponent : Int) (down : Bool) (source : Source) : Reading Number :=
  match spanDigits source with
  | ([], rest) =>
      match rest with
      | [] => .error (.here .endInValue [])
      | _ :: _ => .error (.peek .invalidNumber rest)
  | (digits, rest) =>
      match absorb exponentLimit 0 digits with
      | (k, []) => ofDecimal negative significand (if down then exponent - k else exponent + k) rest
      | (_, _ :: unused) =>
          if significand ≠ 0 ∧ !down then
            .error ⟨[], .lapse .numberOutOfRange, Source.width rest + unused.length⟩
          else
            .ok (.float (.zero negative), rest)

section

variable {negative : Bool} {significand : Nat} {n : Number} {source rest : Source}

theorem readPower_local {exponent : Int} {down : Bool}
    (h : readPower negative significand exponent down source = .ok (n, rest)) :
    ∃ text ds, source = text ++ rest ∧ Digits text ds ∧ ds ≠ [] ∧ NoDigit rest ∧
      ∀ rest', NoDigit rest' → readPower negative significand exponent down (text ++ rest') = .ok (n, rest') := by
  cases hspan : spanDigits source with
  | mk ds after =>
      obtain ⟨text, hsource, hdigits, hend⟩ := (spanDigits_eq_iff _ _ _).mp hspan
      have hagain : ∀ rest', NoDigit rest' → spanDigits (text ++ rest') = (ds, rest') := fun rest' hrest' =>
        (spanDigits_eq_iff _ _ _).mpr ⟨text, rfl, hdigits, hrest'⟩
      rw [readPower, hspan] at h
      cases ds with
      | nil =>
          dsimp only at h
          split at h
          · cases h
          · cases h
      | cons d ds =>
          dsimp only at h
          split at h
          · rename_i k habsorbed
            obtain ⟨rfl, hlocal⟩ := ofDecimal_local h
            refine ⟨text, _, hsource, hdigits, List.cons_ne_nil _ _, hend, fun rest' hrest' => ?_⟩
            rw [readPower, hagain rest' hrest']
            dsimp only
            rw [habsorbed]
            exact hlocal rest'
          · rename_i k unfit unused habsorbed
            split at h
            · cases h
            · rename_i hsmall
              cases h
              refine ⟨text, _, hsource, hdigits, List.cons_ne_nil _ _, hend, fun rest' hrest' => ?_⟩
              rw [readPower, hagain rest' hrest']
              dsimp only
              rw [habsorbed]
              dsimp only
              rw [if_neg hsmall]

theorem readExponent_minus (exponent : Int) (source : Source) :
    readExponent negative significand exponent (.char '-' :: source) =
      readPower negative significand exponent true source :=
  rfl

theorem readExponent_plus (exponent : Int) (source : Source) :
    readExponent negative significand exponent (.char '+' :: source) =
      readPower negative significand exponent false source :=
  rfl

theorem readExponent_bare (exponent : Int) (hminus : source.head? ≠ some (.char '-'))
    (hplus : source.head? ≠ some (.char '+')) :
    readExponent negative significand exponent source = readPower negative significand exponent false source := by
  rw [readExponent]
  · rfl
  · rintro rest rfl
    exact hminus rfl
  · rintro rest rfl
    exact hplus rfl

theorem readExponent_local {exponent : Int} (h : readExponent negative significand exponent source = .ok (n, rest)) :
    ∃ sign text ds, source = sign ++ (text ++ rest) ∧ Sign sign ∧ Digits text ds ∧ ds ≠ [] ∧ NoDigit rest ∧
      ∀ rest', NoDigit rest' →
        readExponent negative significand exponent (sign ++ (text ++ rest')) = .ok (n, rest') := by
  by_cases hminus : source.head? = some (.char '-')
  · obtain ⟨after, rfl⟩ := List.head?_eq_some_iff.mp hminus
    obtain ⟨text, ds, rfl, hdigits, hne, hend, hlocal⟩ := readPower_local h
    exact ⟨[.char '-'], text, ds, rfl, Sign.minus, hdigits, hne, hend, hlocal⟩
  by_cases hplus : source.head? = some (.char '+')
  · obtain ⟨after, rfl⟩ := List.head?_eq_some_iff.mp hplus
    obtain ⟨text, ds, rfl, hdigits, hne, hend, hlocal⟩ := readPower_local h
    exact ⟨[.char '+'], text, ds, rfl, Sign.plus, hdigits, hne, hend, hlocal⟩
  rw [readExponent_bare exponent hminus hplus] at h
  obtain ⟨text, ds, rfl, hdigits, hne, hend, hlocal⟩ := readPower_local h
  refine ⟨[], text, ds, rfl, Sign.absent, hdigits, hne, hend, fun rest' hrest' => ?_⟩
  -- The digits come first, so that the sign is still missing before another rest.
  cases text with
  | nil =>
      obtain rfl : ds = [] := List.map_eq_nil_iff.mp hdigits.symm
      exact absurd rfl hne
  | cons s text =>
      rw [← hlocal rest' hrest']
      exact readExponent_bare exponent hminus hplus

/-- What follows the digits of a number is an exponent, or the number ends there as `finish` says. -/
theorem exponent_local {exponent : Int} {finish : Source → Reading Number}
    (hfinish : ∀ n rest, finish source = .ok (n, rest) → rest = source ∧ ∀ rest', finish rest' = .ok (n, rest'))
    (hsource : NoDigit source)
    (h : (if startsExponent source = true then readExponent negative significand exponent source.tail
      else finish source) = .ok (n, rest)) :
    ∃ written, source = written ++ rest ∧ Exponent written ∧ Halts written rest ∧
      ∀ rest', Halts written rest' → (if startsExponent (written ++ rest') = true then
        readExponent negative significand exponent (written ++ rest').tail else finish (written ++ rest')) =
          .ok (n, rest') := by
  split at h
  · rename_i hletter
    obtain ⟨letter, after, hisLetter, rfl⟩ := (startsExponent_eq_true_iff _).mp hletter
    obtain ⟨sign, text, ds, hafter, hsign, hdigits, hne, hend, hlocal⟩ := readExponent_local h
    rw [List.tail_cons] at hafter
    subst hafter
    refine ⟨letter :: (sign ++ text), by simp, Exponent.present hisLetter hsign hdigits hne,
      ⟨hend, fun _ => List.cons_ne_nil _ _⟩, fun rest' hrest' => ?_⟩
    have hstarts : startsExponent (letter :: (sign ++ text) ++ rest') = true :=
      (startsExponent_eq_true_iff _).mpr ⟨letter, _, hisLetter, rfl⟩
    rw [if_pos hstarts, List.cons_append, List.tail_cons, List.append_assoc]
    exact hlocal rest' hrest'.digit
  · rename_i hletter
    obtain ⟨rfl, hlocal⟩ := hfinish n rest h
    refine ⟨[], rfl, Exponent.absent, ⟨hsource, fun hstarts => absurd hstarts hletter⟩, fun rest' hrest' => ?_⟩
    rw [List.nil_append, if_neg fun hstarts => hrest'.letter hstarts rfl]
    exact hlocal rest'

theorem noDigit_exponent_append {written : Source} (hwritten : Exponent written) (hrest : NoDigit rest) :
    NoDigit (written ++ rest) := by
  cases hwritten with
  | absent => exact hrest
  | present hletter _ _ _ =>
      intro s hs
      obtain rfl := Option.some.inj hs
      exact digit?_of_isLetter hletter

theorem readFraction_local {exponent : Int} (h : readFraction negative significand exponent source = .ok (n, rest)) :
    ∃ text ds written, source = text ++ (written ++ rest) ∧ Digits text ds ∧ ds ≠ [] ∧ Exponent written ∧
      Halts written rest ∧ ∀ rest', Halts written rest' →
        readFraction negative significand exponent (text ++ (written ++ rest')) = .ok (n, rest') := by
  cases hspan : spanDigits source with
  | mk ds after =>
      obtain ⟨text, rfl, hdigits, hend⟩ := (spanDigits_eq_iff _ _ _).mp hspan
      rw [readFraction, hspan] at h
      cases ds with
      | nil =>
          cases after with
          | nil => cases h
          | cons s after => cases h
      | cons d ds =>
          obtain ⟨written, rfl, hwritten, hhalts, hlocal⟩ :=
            exponent_local (fun n rest hfinish => ofDecimal_local hfinish) hend h
          refine ⟨text, _, written, rfl, hdigits, List.cons_ne_nil _ _, hwritten, hhalts, fun rest' hrest' => ?_⟩
          have hagain : spanDigits (text ++ (written ++ rest')) = (d :: ds, written ++ rest') :=
            (spanDigits_eq_iff _ _ _).mpr ⟨text, rfl, hdigits, noDigit_exponent_append hwritten hrest'.digit⟩
          rw [readFraction, hagain]
          exact hlocal rest' hrest'

/-- The number of digits that end where `rest` begins, `exponent` of which are left out of the significand. -/
def ofWhole (negative : Bool) (significand exponent : Nat) (rest : Source) : Reading Number :=
  if exponent = 0 then .ok (ofInteger negative significand, rest)
  else ofDecimal negative significand exponent rest

theorem ofWhole_local {exponent : Nat} (h : ofWhole negative significand exponent source = .ok (n, rest)) :
    rest = source ∧ ∀ rest', ofWhole negative significand exponent rest' = .ok (n, rest') := by
  rw [ofWhole] at h
  split at h
  · rename_i hzero
    cases h
    exact ⟨rfl, fun rest' => by rw [ofWhole, if_pos hzero]⟩
  · rename_i hmore
    obtain ⟨hrest, hlocal⟩ := ofDecimal_local h
    exact ⟨hrest, fun rest' => by rw [ofWhole, if_neg hmore, hlocal]⟩

theorem readTail_bare (exponent : Nat) (hpoint : source.head? ≠ some (.char '.')) :
    readTail negative significand exponent source =
      if startsExponent source = true then readExponent negative significand exponent source.tail
      else ofWhole negative significand exponent source := by
  rw [readTail]
  · rfl
  · rintro rest rfl
    exact hpoint rfl

theorem readTail_local {exponent : Nat} (hsource : NoDigit source)
    (h : readTail negative significand exponent source = .ok (n, rest)) :
    ∃ fraction written, source = fraction ++ (written ++ rest) ∧ Fraction fraction ∧ Exponent written ∧
      Stops fraction written rest ∧ ∀ rest', Stops fraction written rest' →
        readTail negative significand exponent (fraction ++ (written ++ rest')) = .ok (n, rest') := by
  by_cases hpoint : source.head? = some (.char '.')
  · obtain ⟨after, rfl⟩ := List.head?_eq_some_iff.mp hpoint
    obtain ⟨text, ds, written, rfl, hdigits, hne, hwritten, hhalts, hlocal⟩ := readFraction_local h
    exact ⟨.char '.' :: text, written, rfl, Fraction.present hdigits hne, hwritten,
      ⟨hhalts, fun _ => Or.inl (List.cons_ne_nil _ _)⟩, fun rest' hrest' => hlocal rest' hrest'.toHalts⟩
  · rw [readTail_bare exponent hpoint] at h
    obtain ⟨written, rfl, hwritten, hhalts, hlocal⟩ :=
      exponent_local (fun n rest hfinish => ofWhole_local hfinish) hsource h
    have hbare : ∀ rest', Stops [] written rest' → (written ++ rest').head? ≠ some (.char '.') := by
      intro rest' hrest'
      cases hwritten with
      | absent => exact fun hstarts => (hrest'.point hstarts).elim (absurd rfl) (absurd rfl)
      | present hletter _ _ _ =>
          intro hstarts
          rcases hletter with rfl | rfl
          · cases hstarts
          · cases hstarts
    refine ⟨[], written, rfl, Fraction.absent, hwritten, ⟨hhalts, fun hstarts => Or.inr fun hnil => ?_⟩,
      fun rest' hrest' => ?_⟩
    · subst hnil
      exact hpoint hstarts
    · rw [List.nil_append, readTail_bare exponent (hbare rest' hrest')]
      exact hlocal rest' hrest'.toHalts

theorem noDigit_fraction_append {fraction written : Source} (hfraction : Fraction fraction)
    (hwritten : Exponent written) (hrest : NoDigit rest) : NoDigit (fraction ++ (written ++ rest)) := by
  cases hfraction with
  | absent =>
      rw [List.nil_append]
      exact noDigit_exponent_append hwritten hrest
  | present _ _ =>
      intro s hs
      obtain rfl := Option.some.inj hs
      rfl

theorem readUnsigned_local (h : readUnsigned negative source = .ok (n, rest)) :
    ∃ whole fraction written, source = whole ++ (fraction ++ (written ++ rest)) ∧ Whole whole ∧ Fraction fraction ∧
      Exponent written ∧ Stops fraction written rest ∧ ∀ rest', Stops fraction written rest' →
        readUnsigned negative (whole ++ (fraction ++ (written ++ rest'))) = .ok (n, rest') := by
  cases hspan : spanDigits source with
  | mk ds after =>
      obtain ⟨whole, rfl, hdigits, hend⟩ := (spanDigits_eq_iff _ _ _).mp hspan
      have hagain : ∀ {fraction written rest'}, Fraction fraction → Exponent written → Stops fraction written rest' →
          spanDigits (whole ++ (fraction ++ (written ++ rest'))) = (ds, fraction ++ (written ++ rest')) := by
        intro fraction written rest' hfraction hwritten hrest'
        exact (spanDigits_eq_iff _ _ _).mpr
          ⟨whole, rfl, hdigits, noDigit_fraction_append hfraction hwritten hrest'.digit⟩
      rw [readUnsigned, hspan] at h
      cases ds with
      | nil =>
          cases after with
          | nil => cases h
          | cons s after => cases h
      | cons d ds =>
          cases d with
          | zero =>
              cases ds with
              | nil =>
                  obtain ⟨fraction, written, rfl, hfraction, hwritten, hstops, hlocal⟩ := readTail_local hend h
                  refine ⟨whole, fraction, written, rfl, Whole.zero hdigits, hfraction, hwritten, hstops,
                    fun rest' hrest' => ?_⟩
                  rw [readUnsigned, hagain hfraction hwritten hrest']
                  exact hlocal rest' hrest'
              | cons d ds => cases h
          | succ d =>
              obtain ⟨fraction, written, rfl, hfraction, hwritten, hstops, hlocal⟩ := readTail_local hend h
              refine ⟨whole, fraction, written, rfl, Whole.digits (Nat.succ_ne_zero d) hdigits, hfraction, hwritten,
                hstops, fun rest' hrest' => ?_⟩
              rw [readUnsigned, hagain hfraction hwritten hrest']
              exact hlocal rest' hrest'

end

theorem exists_letter_iff_of_parts {whole fraction written : Source} (hwhole : Whole whole)
    (hfraction : Fraction fraction) (hwritten : Exponent written) :
    (∃ s ∈ whole ++ (fraction ++ written), IsLetter s) ↔ written ≠ [] := by
  obtain ⟨d, ds, hdigits⟩ := exists_digits_of_whole hwhole
  constructor
  · rintro ⟨s, hs, hletter⟩ rfl
    rw [List.append_nil, List.mem_append] at hs
    rcases hs with hs | hs
    · exact not_isLetter_of_mem_digits hdigits hs hletter
    · cases hfraction with
      | absent => cases hs
      | present h _ =>
          rcases List.mem_cons.mp hs with rfl | hs
          · rcases hletter with hletter | hletter
            · cases hletter
            · cases hletter
          · exact not_isLetter_of_mem_digits h hs hletter
  · intro hne
    cases hwritten with
    | absent => exact absurd rfl hne
    | present hletter _ _ _ => exact ⟨_, by simp, hletter⟩

theorem point_mem_iff_of_parts {whole fraction written : Source} (hwhole : Whole whole)
    (hfraction : Fraction fraction) (hwritten : Exponent written) :
    .char '.' ∈ whole ++ (fraction ++ written) ↔ fraction ≠ [] := by
  have hnot : ∀ {text : Source} {ds : List Nat}, Digits text ds → .char '.' ∉ text := by
    intro text ds h hin
    obtain ⟨d, hd⟩ := digit?_of_mem_digits h hin
    cases hd
  obtain ⟨d, ds, hdigits⟩ := exists_digits_of_whole hwhole
  constructor
  · rintro hin rfl
    rw [List.nil_append, List.mem_append] at hin
    rcases hin with hin | hin
    · exact hnot hdigits hin
    · cases hwritten with
      | absent => cases hin
      | @present letter sign text ds hletter hsign h _ =>
          rcases List.mem_cons.mp hin with rfl | hin
          · rcases hletter with hletter | hletter
            · cases hletter
            · cases hletter
          rcases List.mem_append.mp hin with hin | hin
          · cases hsign with
            | absent => cases hin
            | minus => simp at hin
            | plus => simp at hin
          · exact hnot h hin
  · intro hne
    cases hfraction with
    | absent => exact absurd rfl hne
    | present _ _ => simp

/-- What a numeral lacks can be seen from its symbols. -/
theorem ends_iff_stops {whole fraction written : Source} (hwhole : Whole whole) (hfraction : Fraction fraction)
    (hwritten : Exponent written) (rest : Source) :
    Ends (whole ++ (fraction ++ written)) rest ↔ Stops fraction written rest := by
  have hletter := exists_letter_iff_of_parts hwhole hfraction hwritten
  have hpoint := point_mem_iff_of_parts hwhole hfraction hwritten
  constructor
  · intro h
    refine ⟨⟨h.digit, fun hstarts => hletter.mp (h.letter hstarts)⟩, fun hstarts => ?_⟩
    rw [← hpoint, ← hletter]
    exact h.point hstarts
  · intro h
    refine ⟨h.digit, fun hstarts => hletter.mpr (h.letter hstarts), fun hstarts => ?_⟩
    rw [hpoint, hletter]
    exact h.point hstarts

theorem ends_minus_iff (text rest : Source) : Ends (.char '-' :: text) rest ↔ Ends text rest := by
  have hletter : (∃ s ∈ .char '-' :: text, IsLetter s) ↔ ∃ s ∈ text, IsLetter s := by
    simp [IsLetter]
  have hpoint : Symbol.char '.' ∈ .char '-' :: text ↔ .char '.' ∈ text := by
    simp
  constructor
  · intro h
    exact ⟨h.digit, hletter.mp ∘ h.letter, fun hstarts => (h.point hstarts).imp hpoint.mp hletter.mp⟩
  · intro h
    exact ⟨h.digit, hletter.mpr ∘ h.letter, fun hstarts => (h.point hstarts).imp hpoint.mpr hletter.mpr⟩

theorem read_bare {source : Source} (h : source.head? ≠ some (.char '-')) :
    read source = readUnsigned false source := by
  rw [read]
  · rintro rest rfl
    exact h rfl

/-- A reader that succeeds has read a numeral, and reads it alike before everything that does not go on with it. -/
theorem read_local {source rest : Source} {n : Number} (h : read source = .ok (n, rest)) :
    ∃ text, source = text ++ rest ∧ IsNumeral text ∧ Ends text rest ∧
      ∀ rest', Ends text rest' → read (text ++ rest') = .ok (n, rest') := by
  by_cases hminus : source.head? = some (.char '-')
  · obtain ⟨after, rfl⟩ := List.head?_eq_some_iff.mp hminus
    obtain ⟨whole, fraction, written, rfl, hwhole, hfraction, hwritten, hstops, hlocal⟩ := readUnsigned_local h
    refine ⟨.char '-' :: (whole ++ (fraction ++ written)), by simp, IsNumeral.negative hwhole hfraction hwritten, ?_,
      fun rest' hrest' => ?_⟩
    · rw [ends_minus_iff, ends_iff_stops hwhole hfraction hwritten]
      exact hstops
    · rw [ends_minus_iff, ends_iff_stops hwhole hfraction hwritten] at hrest'
      simpa [read] using hlocal rest' hrest'
  · rw [read_bare hminus] at h
    obtain ⟨whole, fraction, written, rfl, hwhole, hfraction, hwritten, hstops, hlocal⟩ := readUnsigned_local h
    refine ⟨whole ++ (fraction ++ written), by simp, IsNumeral.positive hwhole hfraction hwritten, ?_,
      fun rest' hrest' => ?_⟩
    · rw [ends_iff_stops hwhole hfraction hwritten]
      exact hstops
    · rw [ends_iff_stops hwhole hfraction hwritten] at hrest'
      obtain ⟨d, ds, hdigits⟩ := exists_digits_of_whole hwhole
      cases whole with
      | nil => cases hdigits
      | cons s whole =>
          rw [List.append_assoc, List.append_assoc, ← hlocal rest' hrest']
          exact read_bare hminus

/-! ## Numbers of numerals -/

/-- The numeral writes the number: read alone it gives the number, and nothing of it is left. -/
def Spells (text : Source) (n : Number) : Prop :=
  IsNumeral text ∧ read text = .ok (n, [])

theorem ends_nil (text : Source) : Ends text [] :=
  ⟨nofun, nofun, nofun⟩

/-- Numbers are read from exactly the numerals that write them, as far as these go. -/
theorem read_eq_ok_iff (source rest : Source) (n : Number) :
    read source = .ok (n, rest) ↔ ∃ text, source = text ++ rest ∧ Spells text n ∧ Ends text rest := by
  constructor
  · intro h
    obtain ⟨text, hsource, hnumeral, hends, hlocal⟩ := read_local h
    have halone := hlocal [] (ends_nil text)
    rw [List.append_nil] at halone
    exact ⟨text, hsource, ⟨hnumeral, halone⟩, hends⟩
  · rintro ⟨text, rfl, ⟨-, hread⟩, hends⟩
    obtain ⟨whole, htext, -, -, hlocal⟩ := read_local hread
    rw [List.append_nil] at htext
    subst htext
    exact hlocal rest hends

/-- A numeral begins with a digit or with a minus. -/
theorem exists_head_of_isNumeral {text : Source} (h : IsNumeral text) :
    ∃ s rest, text = s :: rest ∧ (s = .char '-' ∨ ∃ d, digit? s = some d) := by
  cases h with
  | @positive whole fraction written hwhole _ _ =>
      obtain ⟨d, ds, hdigits⟩ := exists_digits_of_whole hwhole
      cases whole with
      | nil => cases hdigits
      | cons s whole => exact ⟨s, _, rfl, Or.inr (digit?_of_mem_digits hdigits List.mem_cons_self)⟩
  | negative _ _ _ => exact ⟨_, _, rfl, Or.inl rfl⟩

end Number
end RecordSearch
