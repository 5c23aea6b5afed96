import Mathlib.Data.List.TakeWhile
import RecordSearch.Error

/-!
# Texts of versions and compatibility

A version is read from two or three numbers with dots between them, and it decides together with the version of an
engine whether a document can be read.

* `Decimal.WritesWord`, `Decimal.word?_eq_some_iff`: the texts of numbers that fit in a word.
* `Text.trim_eq_of_surrounded`, `Text.exists_trim`: a text without the blanks at its ends.
* `Spells`, `parse?_eq_some_iff`: the texts that write a version; these are read, blanks at their ends apart.
* `spells_text`: a version writes itself.
* `parse?_text_readableBy`: together with the order of the versions that can be read.
-/

namespace RecordSearch

namespace Decimal

/-- Digits, at least one, with at most one plus before them write a number that fits in a word. -/
inductive WritesWord : List Char → Nat → Prop
  | bare {ds : List Char} {n : Nat} (hne : ds ≠ []) (hdigits : ∀ c ∈ ds, c.isDigit = true)
      (hvalue : Nat.ofDigitChars 10 ds 0 = n) (hfits : n < wordLimit) : WritesWord ds n
  | signed {ds : List Char} {n : Nat} (hne : ds ≠ []) (hdigits : ∀ c ∈ ds, c.isDigit = true)
      (hvalue : Nat.ofDigitChars 10 ds 0 = n) (hfits : n < wordLimit) : WritesWord ('+' :: ds) n

theorem ofDigits?_eq_some_iff (cs : List Char) (n : Nat) :
    ofDigits? cs = some n ↔ cs ≠ [] ∧ (∀ c ∈ cs, c.isDigit = true) ∧ Nat.ofDigitChars 10 cs 0 = n := by
  rw [ofDigits?]
  split
  · rename_i h
    simp only [Bool.or_eq_true, List.isEmpty_iff, Bool.not_eq_true', List.all_eq_false] at h
    constructor
    · intro hnone
      cases hnone
    · rintro ⟨hne, hdigits, -⟩
      rcases h with hnil | ⟨c, hc, hnot⟩
      · exact absurd hnil hne
      · exact absurd (hdigits c hc) hnot
  · rename_i h
    simp only [Bool.or_eq_true, List.isEmpty_iff, Bool.not_eq_true', not_or, Bool.not_eq_false, List.all_eq_true] at h
    simp only [Option.some.injEq, ne_eq, h, not_false_iff, true_and]
    exact ⟨fun hvalue => ⟨h.2, hvalue⟩, And.right⟩

/-- Exactly the written words are read. -/
theorem word?_eq_some_iff (cs : List Char) (n : Nat) : word? cs = some n ↔ WritesWord cs n := by
  rw [word?, Option.filter_eq_some_iff, decide_eq_true_iff]
  constructor
  · rintro ⟨h, hfits⟩
    rw [unsigned?.eq_def] at h
    split at h
    · obtain ⟨hne, hdigits, hvalue⟩ := (ofDigits?_eq_some_iff _ _).mp h
      exact WritesWord.signed hne hdigits hvalue hfits
    · obtain ⟨hne, hdigits, hvalue⟩ := (ofDigits?_eq_some_iff _ _).mp h
      exact WritesWord.bare hne hdigits hvalue hfits
  · intro h
    cases h with
    | bare hne hdigits hvalue hfits =>
        refine ⟨?_, hfits⟩
        rw [unsigned?]
        · exact (ofDigits?_eq_some_iff _ _).mpr ⟨hne, hdigits, hvalue⟩
        -- A plus is no digit.
        · rintro rest rfl
          cases hdigits '+' List.mem_cons_self
    | signed hne hdigits hvalue hfits =>
        exact ⟨(ofDigits?_eq_some_iff _ _).mpr ⟨hne, hdigits, hvalue⟩, hfits⟩

theorem writesWord_digits {n : Nat} (h : n < wordLimit) : WritesWord (digits n) n :=
  WritesWord.bare Nat.toDigits_ne_nil (fun _ hc => isDigit_of_mem_digits hc) Nat.ofDigitChars_ten_toDigits h

theorem fits_of_writesWord {cs : List Char} {n : Nat} (h : WritesWord cs n) : n < wordLimit := by
  cases h with
  | bare _ _ _ hfits => exact hfits
  | signed _ _ _ hfits => exact hfits

theorem mem_of_writesWord {cs : List Char} {n : Nat} (h : WritesWord cs n) {c : Char} (hc : c ∈ cs) :
    c = '+' ∨ c.isDigit = true := by
  cases h with
  | bare _ hdigits _ _ => exact Or.inr (hdigits c hc)
  | signed _ hdigits _ _ => exact (List.mem_cons.mp hc).imp_right (hdigits c)

theorem dot_notMem_of_writesWord {cs : List Char} {n : Nat} (h : WritesWord cs n) : '.' ∉ cs := by
  intro hdot
  rcases mem_of_writesWord h hdot with hplus | hdigit
  · cases hplus
  · cases hdigit

end Decimal

namespace Text

theorem isBlank_of_isDigit {c : Char} (h : c.isDigit = true) : isBlank c = false := by
  have hbounds : 48 ≤ c.toNat ∧ c.toNat ≤ 57 := by
    simpa [Char.isDigit, UInt32.le_iff_toNat_le] using h
  rw [isBlank, Bool.eq_false_iff, ne_eq, CodePoints.contains_iff]
  simp only [blanks, List.mem_cons, List.not_mem_nil, or_false, exists_eq_or_imp, exists_eq_left]
  omega

/-- Blanks around a text that begins and ends with none are all that is taken away. -/
theorem trim_eq_of_surrounded {before body after : List Char} (hbefore : ∀ c ∈ before, isBlank c = true)
    (hafter : ∀ c ∈ after, isBlank c = true) (hbody : ∀ c ∈ body, isBlank c = false) :
    trim (before ++ (body ++ after)) = body := by
  have hkept : ∀ cs : List Char, (∀ c ∈ cs, isBlank c = false) → cs.dropWhile isBlank = cs := by
    intro cs hcs
    rw [List.dropWhile_eq_self_iff]
    intro hpos
    simp [hcs _ (List.getElem_mem hpos)]
  rw [trim, List.dropWhile_append_of_pos hbefore]
  cases body with
  | nil =>
      rw [List.nil_append, List.dropWhile_eq_nil_iff.mpr hafter]
      rfl
  | cons c rest =>
      have hhead : ((c :: rest) ++ after).dropWhile isBlank = (c :: rest) ++ after := by
        rw [List.cons_append, List.dropWhile_cons_of_neg]
        simp [hbody c List.mem_cons_self]
      have hreversed : ∀ d ∈ after.reverse, isBlank d = true := fun d hd => hafter d (List.mem_reverse.mp hd)
      rw [hhead, List.reverse_append, List.dropWhile_append_of_pos hreversed, hkept, List.reverse_reverse]
      exact fun d hd => hbody d (List.mem_reverse.mp hd)

/-- What is taken away at the ends of a text is blank. -/
theorem exists_trim (cs : List Char) :
    ∃ before after, cs = before ++ (trim cs ++ after) ∧ (∀ c ∈ before, isBlank c = true) ∧
      ∀ c ∈ after, isBlank c = true := by
  refine ⟨cs.takeWhile isBlank, ((cs.dropWhile isBlank).reverse.takeWhile isBlank).reverse, ?_, ?_, ?_⟩
  · rw [trim, ← List.reverse_append, List.takeWhile_append_dropWhile, List.reverse_reverse,
      List.takeWhile_append_dropWhile]
  · exact fun c hc => List.mem_takeWhile_imp hc
  · exact fun c hc => List.mem_takeWhile_imp (List.mem_reverse.mp hc)

end Text

namespace Version

open Decimal

/-- Two or three numbers with dots between them write a version. -/
inductive Spells : List Char → Version → Prop
  | short {a b : List Char} {major minor : Nat} (hmajor : WritesWord a major) (hminor : WritesWord b minor) :
      Spells (a ++ '.' :: b) ⟨major, minor, none⟩
  | long {a b c : List Char} {major minor patch : Nat} (hmajor : WritesWord a major) (hminor : WritesWord b minor)
      (hpatch : WritesWord c patch) : Spells (a ++ '.' :: (b ++ '.' :: c)) ⟨major, minor, some patch⟩

/-- Every part of the version fits in a word. -/
structure Fits (v : Version) : Prop where
  major : v.major < wordLimit
  minor : v.minor < wordLimit
  patch : ∀ patch ∈ v.patch, patch < wordLimit

theorem ofPieces?_splitOn_eq_some_iff (cs : List Char) (v : Version) :
    ofPieces? (cs.splitOn '.') = some v ↔ Spells cs v := by
  constructor
  · intro h
    have hcs : ['.'].intercalate (cs.splitOn '.') = cs := List.intercalate_splitOn '.'
    revert h hcs
    generalize cs.splitOn '.' = pieces
    intro h hcs
    rw [ofPieces?.eq_def] at h
    split at h
    · simp only [Option.bind_eq_bind, Option.bind_eq_some_iff, word?_eq_some_iff, Option.some.injEq] at h
      obtain ⟨major, hmajor, minor, hminor, rfl⟩ := h
      rw [← hcs, List.intercalate_cons_cons, List.intercalate_singleton, List.append_assoc]
      exact Spells.short hmajor hminor
    · simp only [Option.bind_eq_bind, Option.bind_eq_some_iff, word?_eq_some_iff, Option.some.injEq] at h
      obtain ⟨major, hmajor, minor, hminor, patch, hpatch, rfl⟩ := h
      rw [← hcs, List.intercalate_cons_cons, List.intercalate_cons_cons, List.intercalate_singleton,
        List.append_assoc, List.append_assoc]
      exact Spells.long hmajor hminor hpatch
    · cases h
  · intro h
    cases h with
    | @short a b major minor hmajor hminor =>
        have hsplit : (['.'].intercalate [a, b]).splitOn '.' = [a, b] := by
          refine List.splitOn_intercalate '.' ?_ (List.cons_ne_nil _ _)
          simp [dot_notMem_of_writesWord hmajor, dot_notMem_of_writesWord hminor]
        rw [List.intercalate_cons_cons, List.intercalate_singleton, List.append_assoc] at hsplit
        rw [← List.singleton_append, hsplit, ofPieces?, (word?_eq_some_iff _ _).mpr hmajor,
          (word?_eq_some_iff _ _).mpr hminor]
        rfl
    | @long a b c major minor patch hmajor hminor hpatch =>
        have hsplit : (['.'].intercalate [a, b, c]).splitOn '.' = [a, b, c] := by
          refine List.splitOn_intercalate '.' ?_ (List.cons_ne_nil _ _)
          simp [dot_notMem_of_writesWord hmajor, dot_notMem_of_writesWord hminor, dot_notMem_of_writesWord hpatch]
        rw [List.intercalate_cons_cons, List.intercalate_cons_cons, List.intercalate_singleton, List.append_assoc,
          List.append_assoc] at hsplit
        rw [← List.singleton_append, ← List.singleton_append (l := c), hsplit, ofPieces?,
          (word?_eq_some_iff _ _).mpr hmajor, (word?_eq_some_iff _ _).mpr hminor, (word?_eq_some_iff _ _).mpr hpatch]
        rfl

/-- A version is written without blanks. -/
theorem isBlank_of_spells {cs : List Char} {v : Version} (h : Spells cs v) {c : Char} (hc : c ∈ cs) :
    Text.isBlank c = false := by
  have hword : ∀ {ds : List Char} {n : Nat}, WritesWord ds n → c ∈ ds → Text.isBlank c = false := by
    intro ds n hds hin
    rcases mem_of_writesWord hds hin with rfl | hdigit
    · rfl
    · exact Text.isBlank_of_isDigit hdigit
  cases h with
  | short hmajor hminor =>
      simp only [List.mem_append, List.mem_cons] at hc
      rcases hc with hc | rfl | hc
      · exact hword hmajor hc
      · rfl
      · exact hword hminor hc
  | long hmajor hminor hpatch =>
      simp only [List.mem_append, List.mem_cons] at hc
      rcases hc with hc | rfl | hc | rfl | hc
      · exact hword hmajor hc
      · rfl
      · exact hword hminor hc
      · rfl
      · exact hword hpatch hc

/-- Exactly the texts that write a version are read, blanks at their ends apart. -/
theorem parse?_eq_some_iff (source : String) (v : Version) :
    parse? source = some v ↔ ∃ before body after, source.toList = before ++ (body ++ after) ∧
      (∀ c ∈ before, Text.isBlank c = true) ∧ (∀ c ∈ after, Text.isBlank c = true) ∧ Spells body v := by
  rw [parse?, ofPieces?_splitOn_eq_some_iff]
  constructor
  · intro h
    obtain ⟨before, after, hsource, hbefore, hafter⟩ := Text.exists_trim source.toList
    exact ⟨before, _, after, hsource, hbefore, hafter, h⟩
  · rintro ⟨before, body, after, hsource, hbefore, hafter, hbody⟩
    rw [hsource, Text.trim_eq_of_surrounded hbefore hafter fun c hc => isBlank_of_spells hbody hc]
    exact hbody

theorem fits_of_spells {cs : List Char} {v : Version} (h : Spells cs v) : v.Fits := by
  cases h with
  | short hmajor hminor => exact ⟨fits_of_writesWord hmajor, fits_of_writesWord hminor, by simp⟩
  | long hmajor hminor hpatch =>
      exact ⟨fits_of_writesWord hmajor, fits_of_writesWord hminor, by simpa using fits_of_writesWord hpatch⟩

/-- A version writes itself. -/
theorem spells_text {v : Version} (h : v.Fits) : Spells v.text.toList v := by
  obtain ⟨major, minor, patch⟩ := v
  have hmajor := writesWord_digits h.major
  have hminor := writesWord_digits h.minor
  rw [text, String.toList_intercalate]
  cases patch with
  | none => simpa using Spells.short hmajor hminor
  | some patch => simpa using Spells.long hmajor hminor (writesWord_digits (h.patch patch rfl))

theorem parse?_text_of_fits {v : Version} (h : v.Fits) : parse? v.text = some v :=
  (parse?_eq_some_iff _ _).mpr ⟨[], _, [], by simp, by simp, by simp, spells_text h⟩

/-! ## Compatibility -/

theorem readableBy_iff (v e : Version) : v.readableBy e = true ↔ v.major = e.major ∧ v.minor ≤ e.minor := by
  rw [readableBy, decide_eq_true_iff]

theorem check_eq_ok_iff (source : String) (v : Version) :
    check source = .ok v ↔ parse? source = some v ∧ v.major = engine.major ∧ v.minor ≤ engine.minor := by
  rw [check]
  cases hparse : parse? source with
  | none => simp
  | some found =>
      dsimp only
      split
      · rename_i h
        rw [Except.ok.injEq, Option.some.injEq, iff_self_and]
        rintro rfl
        exact (readableBy_iff _ _).mp h
      · rename_i h
        rw [readableBy_iff] at h
        simp only [reduceCtorEq, Option.some.injEq, false_iff]
        rintro ⟨rfl, hreadable⟩
        exact h hreadable

/-- **Versions and their texts.**  A version whose parts fit in 64 bits is read back from its text.  The texts that are
read are two or three numbers with dots between them, blanks at their ends apart, each of digits with at most one plus
before them and below the bound; what is read is read back from its text in turn.  A document passes if its version
has the major number of the engine and a minor number that is not above it.  To be readable is reflexive and
transitive, and goes down to smaller minor numbers, whatever the patches are. -/
theorem parse?_text_readableBy :
    (∀ v : Version, v.Fits → parse? v.text = some v) ∧
    (∀ source v, parse? source = some v ↔ ∃ before body after, source.toList = before ++ (body ++ after) ∧
      (∀ c ∈ before, Text.isBlank c = true) ∧ (∀ c ∈ after, Text.isBlank c = true) ∧ Spells body v) ∧
    (∀ source v, parse? source = some v → parse? v.text = some v) ∧
    (∀ source v, check source = .ok v ↔
      parse? source = some v ∧ v.major = engine.major ∧ v.minor ≤ engine.minor) ∧
    (∀ v : Version, v.readableBy v = true) ∧
    (∀ u v w : Version, u.readableBy v = true → v.readableBy w = true → u.readableBy w = true) ∧
    ∀ u v e : Version, v.readableBy e = true → u.major = v.major → u.minor ≤ v.minor → u.readableBy e = true := by
  refine ⟨fun v => parse?_text_of_fits, parse?_eq_some_iff, ?again, check_eq_ok_iff, ?refl, ?trans, ?down⟩
  case again =>
    intro source v h
    obtain ⟨_, _, _, _, _, _, hspells⟩ := (parse?_eq_some_iff _ _).mp h
    exact parse?_text_of_fits (fits_of_spells hspells)
  case refl =>
    exact fun v => (readableBy_iff v v).mpr ⟨rfl, Nat.le_refl _⟩
  case trans =>
    intro u v w huv hvw
    obtain ⟨hmajor, hminor⟩ := (readableBy_iff u v).mp huv
    obtain ⟨hmajor', hminor'⟩ := (readableBy_iff v w).mp hvw
    exact (readableBy_iff u w).mpr ⟨hmajor.trans hmajor', by omega⟩
  case down =>
    intro u v e hve hmajor hminor
    obtain ⟨hmajor', hminor'⟩ := (readableBy_iff v e).mp hve
    exact (readableBy_iff u e).mpr ⟨hmajor.trans hmajor', by omega⟩

/-- The largest number, and a text with blanks, a plus and a leading zero. -/
theorem parse?_text_readableBy_padded :
    let largest : Version := ⟨1, 18446744073709551615, some 7⟩
    let older : Version := ⟨1, 0, some 9⟩
    let source := " +01.1\n"
    largest.Fits ∧ parse? largest.text = some largest ∧
      (source.toList = [' '] ++ (['+', '0', '1', '.', '1'] ++ ['\n']) ∧ parse? source = some ⟨1, 1, none⟩) ∧
      check source = .ok ⟨1, 1, none⟩ ∧
      Version.readableBy ⟨1, 1, none⟩ engine = true ∧ older.readableBy engine = true := by
  intro largest older source
  obtain ⟨hself, hread, _, hcheck, _, _, hdown⟩ := parse?_text_readableBy
  have hfits : largest.Fits := ⟨by decide, by decide, by decide⟩
  have hmajor : WritesWord ['+', '0', '1'] 1 :=
    WritesWord.signed (List.cons_ne_nil _ _) (List.all_eq_true.mp rfl) (by decide) (by decide)
  have hminor : WritesWord ['1'] 1 :=
    WritesWord.bare (List.cons_ne_nil _ _) (List.all_eq_true.mp rfl) (by decide) (by decide)
  have hwritten : source.toList = [' '] ++ (['+', '0', '1', '.', '1'] ++ ['\n']) := by
    simp [source]
  have hsource : parse? source = some ⟨1, 1, none⟩ :=
    (hread _ _).mpr ⟨[' '], _, ['\n'], hwritten, List.all_eq_true.mp rfl, List.all_eq_true.mp rfl,
      Spells.short hmajor hminor⟩
  have hreadable : Version.readableBy ⟨1, 1, none⟩ engine = true := by decide
  exact ⟨hfits, hself largest hfits, ⟨hwritten, hsource⟩, (hcheck _ _).mpr ⟨hsource, by decide, by decide⟩, hreadable,
    hdown older ⟨1, 1, none⟩ engine hreadable rfl (by decide)⟩

end Version
end RecordSearch
