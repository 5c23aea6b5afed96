import RecordSearch.Text.Decimal
import RecordSearch.Workspace.Basic

/-!
# Glob patterns

A pattern describes paths, one name after the other.  In a name `?` stands for one character, `*` for any characters,
`[…]` for one of the characters between the brackets and `[!…]` for one of the others.  The name `**` stands for any
number of folders.
-/

namespace RecordSearch.Glob

/-- Why a text is no pattern. -/
inductive Cause where
  /-- Three asterisks in a row. -/
  | asterisks
  /-- Two asterisks beside other characters of a name. -/
  | folders
  /-- A bracket that is not closed. -/
  | bracket
deriving DecidableEq, Repr

/-- Where and why a text is no pattern. -/
structure Flaw where
  position : Nat
  cause : Cause
deriving DecidableEq, Repr

/-- The text of a cause. -/
def Cause.message : Cause → String
  | asterisks => "wildcards are either regular `*` or recursive `**`"
  | folders => "recursive wildcards must form a single path component"
  | bracket => "invalid range pattern"

/-- The text of a flaw. -/
def Flaw.message (flaw : Flaw) : String :=
  "Pattern syntax error near position " ++ String.ofList (Decimal.digits flaw.position) ++ ": " ++ flaw.cause.message

/-- A part of a pattern. -/
inductive Element where
  | char (c : Char)
  | anyChar
  | anyChars
  | anyFolders
  /-- A character in one of the ranges. -/
  | within (ranges : List (Char × Char))
  /-- A character in none of the ranges. -/
  | outside (ranges : List (Char × Char))
deriving DecidableEq, Repr

/-! ## Reading patterns -/

/-- The ranges that the characters between brackets write. -/
def ranges : List Char → List (Char × Char)
  | low :: '-' :: high :: rest => (low, high) :: ranges rest
  | c :: rest => (c, c) :: ranges rest
  | [] => []

/-- The characters up to the bracket that closes, of which the first may be a bracket itself, and the rest. -/
def bracketed? : List Char → Option (List Char × List Char)
  | [] => none
  | first :: rest =>
      match rest.dropWhile (· ≠ ']') with
      | [] => none
      | _ :: after => some (first :: rest.takeWhile (· ≠ ']'), after)

/-- The element that stands behind an opened bracket, and the rest. -/
def classOf? : List Char → Option (Element × List Char)
  | '!' :: rest => (bracketed? rest).map fun (inside, after) => (.outside (ranges inside), after)
  | rest => (bracketed? rest).map fun (inside, after) => (.within (ranges inside), after)

theorem length_bracketed? {cs inside after : List Char} (h : bracketed? cs = some (inside, after)) :
    after.length < cs.length := by
  cases cs with
  | nil => simp [bracketed?] at h
  | cons first rest =>
      rw [bracketed?] at h
      split at h
      · simp at h
      · next c after' hd =>
          simp only [Option.some.injEq, Prod.mk.injEq] at h
          have hl := (List.dropWhile_sublist (· ≠ ']') (l := rest)).length_le
          rw [hd, List.length_cons] at hl
          rw [← h.2, List.length_cons]
          omega

theorem length_classOf? {cs after : List Char} {element : Element} (h : classOf? cs = some (element, after)) :
    after.length < cs.length := by
  unfold classOf? at h
  split at h
  · next rest =>
      simp only [Option.map_eq_some_iff, Prod.exists, Prod.mk.injEq] at h
      obtain ⟨inside, after', hb, -, rfl⟩ := h
      have := length_bracketed? hb
      rw [List.length_cons]
      omega
  · simp only [Option.map_eq_some_iff, Prod.exists, Prod.mk.injEq] at h
    obtain ⟨inside, after', hb, -, rfl⟩ := h
    exact length_bracketed? hb

/-- The elements of a pattern from the character at `position` on, which stands behind `before`. -/
def elementsFrom (position : Nat) (before : Option Char) (cs : List Char) : Except Flaw (List Element) :=
  match cs with
  | [] => .ok []
  | '*' :: '*' :: '*' :: _ => .error ⟨position + 2, .asterisks⟩
  | '*' :: '*' :: rest =>
      if before.isSome ∧ before ≠ some '/' then .error ⟨position - 1, .folders⟩
      else
        match rest with
        | [] => .ok [.anyFolders]
        | '/' :: rest => (elementsFrom (position + 3) (some '/') rest).map (.anyFolders :: ·)
        | _ => .error ⟨position + 2, .folders⟩
  | '*' :: rest => (elementsFrom (position + 1) (some '*') rest).map (.anyChars :: ·)
  | '?' :: rest => (elementsFrom (position + 1) (some '?') rest).map (.anyChar :: ·)
  | '[' :: rest =>
      match h : classOf? rest with
      | none => .error ⟨position, .bracket⟩
      | some (element, after) =>
          have := length_classOf? h
          (elementsFrom (position + 1 + (rest.length - after.length)) (some ']') after).map (element :: ·)
  | c :: rest => (elementsFrom (position + 1) (some c) rest).map (.char c :: ·)
termination_by cs.length

/-- The elements of a pattern. -/
def parse (pattern : List Char) : Except Flaw (List Element) :=
  elementsFrom 0 none pattern

/-- A text is taken for a pattern if it holds a character that stands for others. -/
def isPattern (text : String) : Bool :=
  text.toList.any fun c => c = '*' || c = '?' || c = '['

/-! ## Names -/

/-- A character is in one of the ranges. -/
def inRanges (ranges : List (Char × Char)) (c : Char) : Bool :=
  ranges.any fun (low, high) => decide (low ≤ c) && decide (c ≤ high)

/-- A character fits an element for one character. -/
def Element.admits : Element → Char → Bool
  | char expected, c => c == expected
  | within ranges, c => inRanges ranges c
  | outside ranges, c => !inRanges ranges c
  | _, _ => true

/-- An element that stands for any number of characters. -/
def Element.repeats : Element → Bool
  | anyChars | anyFolders => true
  | _ => false

/-- Every flag of a list, raised if one of the flags after it is. -/
def orLater (flags : List Bool) : List Bool :=
  flags.foldr (fun flag later => (flag || later.headD false) :: later) []

/-- Which ends of a name fit a pattern: the whole name first, then the name without its first character, and so on
down to the empty one.  Every end is looked at once for each element, however many of them repeat. -/
def fittingEnds : List Element → List Char → List Bool
  | [], name => name.map (fun _ => false) ++ [true]
  | element :: pattern, name =>
      let flags := fittingEnds pattern name
      if element.repeats then orLater flags
      else List.zipWith (fun c flag => element.admits c && flag) name flags.tail ++ [false]

/-- A name fits a pattern. -/
def accepts (pattern : List Element) (name : List Char) : Bool :=
  (fittingEnds pattern name).headD false

theorem orLater_nil : orLater [] = [] :=
  rfl

theorem orLater_cons (flag : Bool) (flags : List Bool) :
    orLater (flag :: flags) = (flag || (orLater flags).headD false) :: orLater flags :=
  rfl

theorem fittingEnds_nil (name : List Char) : fittingEnds [] name = name.map (fun _ => false) ++ [true] :=
  rfl

theorem fittingEnds_element (element : Element) (pattern : List Element) (name : List Char) :
    fittingEnds (element :: pattern) name =
      if element.repeats then orLater (fittingEnds pattern name)
      else List.zipWith (fun c flag => element.admits c && flag) name (fittingEnds pattern name).tail ++ [false] :=
  rfl

theorem accepts_eq (pattern : List Element) (name : List Char) :
    accepts pattern name = (fittingEnds pattern name).headD false :=
  rfl

/-- The list of ends has an entry for every character and one for the empty name. -/
theorem length_fittingEnds (pattern : List Element) (name : List Char) :
    (fittingEnds pattern name).length = name.length + 1 := by
  induction pattern with
  | nil => simp [fittingEnds_nil]
  | cons element pattern ih =>
      have length_orLater (flags : List Bool) : (orLater flags).length = flags.length := by
        induction flags with
        | nil => rfl
        | cons flag rest ih => simpa [orLater_cons] using ih
      by_cases h : element.repeats <;> simp [fittingEnds_element, h, ih, length_orLater]

/-- The ends of a name are the name itself and the ends of what follows its first character. -/
theorem fittingEnds_cons (pattern : List Element) (c : Char) (rest : List Char) :
    fittingEnds pattern (c :: rest) = accepts pattern (c :: rest) :: fittingEnds pattern rest := by
  induction pattern with
  | nil => simp [accepts_eq, fittingEnds_nil]
  | cons element pattern ih =>
      have hl := length_fittingEnds pattern rest
      rw [accepts_eq]
      by_cases h : element.repeats
      · simp [fittingEnds_element, h, ih, orLater_cons]
      · cases hf : fittingEnds pattern rest with
        | nil => simp [hf] at hl
        | cons flag flags => simp [fittingEnds_element, h, ih, hf]

/-- The empty pattern fits the empty name alone. -/
theorem accepts_nil (name : List Char) : accepts [] name = name.isEmpty := by
  cases name <;> simp [accepts_eq, fittingEnds_nil]

/-- An element that repeats leaves the empty name to the rest of the pattern. -/
theorem accepts_repeats_nil {element : Element} (h : element.repeats = true) (pattern : List Element) :
    accepts (element :: pattern) [] = accepts pattern [] := by
  have hl := length_fittingEnds pattern []
  cases hf : fittingEnds pattern [] <;> simp_all [accepts_eq, fittingEnds_element, orLater_nil, orLater_cons]

/-- An element that repeats takes no character, or one and stands there again. -/
theorem accepts_repeats_cons {element : Element} (h : element.repeats = true) (pattern : List Element) (c : Char)
    (rest : List Char) :
    accepts (element :: pattern) (c :: rest) =
      (accepts pattern (c :: rest) || accepts (element :: pattern) rest) := by
  conv => lhs; rw [accepts_eq, fittingEnds_element, fittingEnds_cons]
  conv => rhs; rw [accepts_eq (element :: pattern) rest, fittingEnds_element]
  simp [h, orLater_cons]

/-- An element for one character does not fit the empty name. -/
theorem accepts_single_nil {element : Element} (h : element.repeats = false) (pattern : List Element) :
    accepts (element :: pattern) [] = false := by
  simp [accepts_eq, fittingEnds_element, h]

/-- An element for one character takes the first one. -/
theorem accepts_single_cons {element : Element} (h : element.repeats = false) (pattern : List Element) (c : Char)
    (rest : List Char) :
    accepts (element :: pattern) (c :: rest) = (element.admits c && accepts pattern rest) := by
  have hl := length_fittingEnds pattern rest
  conv => lhs; rw [accepts_eq, fittingEnds_element, fittingEnds_cons]
  cases hf : fittingEnds pattern rest <;> simp_all [accepts_eq]

/-- The name that a pattern spells if no element stands for other characters. -/
def literal? (pattern : List Element) : Option (List Char) :=
  pattern.mapM fun element =>
    match element with
    | .char c => some c
    | _ => none

/-- A pattern for any number of folders. -/
def isFolders (pattern : List Element) : Bool :=
  pattern.contains .anyFolders

end RecordSearch.Glob
