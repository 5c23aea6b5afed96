import RecordSearch.Template.Literal
import RecordSearch.Proofs.Flat.Leaves
import Mathlib.Data.List.TakeWhile

/-!
# The grammar of literals

A literal is a sequence of texts and placeholders.  In writing, every brace of a text is doubled, and a placeholder
stands in single braces, its specification behind a colon.

* `Item`, `write`: the parts of a literal as they are meant, and their written form.
* `LastLeaf`, `Shows`: the leaf that a name stands for, and what a part shows for the leaves of a record.
* `scanText_written`: the written form of any parts is read, and the pieces show what the parts show.
* `exists_items_of_scan`: all that is read is the written form of some parts.
* `parse_grammar`: exactly the written forms are read, they render as their parts, and all else is an invalid
  placeholder.
-/

namespace RecordSearch
namespace Literal

open Traversal

/-- A part of a literal as it is meant; a placeholder has its specification in writing. -/
inductive Item where
  | text (text : String)
  | placeholder (name : String) (spec : Option String)

/-- The character is a brace. -/
def isBrace (c : Char) : Prop :=
  c = '\x7b' ∨ c = '\x7d'

instance (c : Char) : Decidable (isBrace c) :=
  inferInstanceAs (Decidable (_ ∨ _))

/-- The text with every brace doubled. -/
def escape (text : List Char) : List Char :=
  text.flatMap fun c => if isBrace c then [c, c] else [c]

/-- The name of a placeholder is not empty and has neither braces nor colons; its specification has no braces and can be
read. -/
def Item.Valid : Item → Prop
  | .text _ => True
  | .placeholder name spec =>
      name ≠ "" ∧ (∀ c ∈ name.toList, ¬ isBrace c ∧ c ≠ ':') ∧
        ∀ s ∈ spec, (∀ c ∈ s.toList, ¬ isBrace c) ∧ (FormatSpec.parse? s.toList).isSome = true

instance : (item : Item) → Decidable item.Valid
  | .text _ => inferInstanceAs (Decidable True)
  | .placeholder _ _ => inferInstanceAs (Decidable (_ ∧ _ ∧ _))

/-- What stands between the braces of a placeholder. -/
def inner (name : String) : Option String → List Char
  | none => name.toList
  | some spec => name.toList ++ ':' :: spec.toList

/-- The written form of a part. -/
def Item.written : Item → List Char
  | .text t => escape t.toList
  | .placeholder name spec => '\x7b' :: inner name spec ++ ['\x7d']

/-- The name of a placeholder. -/
def Item.name? : Item → Option String
  | .text _ => none
  | .placeholder name _ => some name

/-- The name of the leaf of a record at a path: a record that is itself a scalar has the leaf `value`. -/
def leafName (record : Json) (path : Path) : String :=
  if record.isLeaf then "value" else Path.text path

/-- The leaves of a record under their names. -/
def named (record : Json) (flat : Flat) : List (String × Scalar) :=
  flat.map fun (path, scalar) => (leafName record path, scalar)

/-- In a container, a leaf has the text of its path for a name. -/
theorem mem_named_of_container {record : Json} (hrecord : record.isLeaf = false) (flat : Flat) (name : String)
    (scalar : Scalar) : (name, scalar) ∈ named record flat ↔ ∃ path, (path, scalar) ∈ flat ∧ Path.text path = name := by
  simp [named, leafName, hrecord]

/-- The leaf is the last one of its name. -/
def LastLeaf (leaves : List (String × Scalar)) (name : String) (scalar : Scalar) : Prop :=
  ∃ before after, leaves = before ++ (name, scalar) :: after ∧ name ∉ Members.names after

theorem lastLeaf_cons (leaf : String × Scalar) (leaves : List (String × Scalar)) (name : String) (scalar : Scalar) :
    LastLeaf (leaf :: leaves) name scalar ↔
      LastLeaf leaves name scalar ∨ leaf = (name, scalar) ∧ name ∉ Members.names leaves := by
  constructor
  · rintro ⟨before, after, h, hlast⟩
    cases before with
    | nil =>
        obtain ⟨rfl, rfl⟩ : leaf = (name, scalar) ∧ leaves = after := by
          simpa using h
        exact Or.inr ⟨rfl, hlast⟩
    | cons first before =>
        obtain ⟨-, rfl⟩ : leaf = first ∧ leaves = before ++ (name, scalar) :: after := by
          simpa using h
        exact Or.inl ⟨before, after, rfl, hlast⟩
  · rintro (⟨before, after, rfl, hlast⟩ | ⟨rfl, hlast⟩)
    · exact ⟨leaf :: before, after, rfl, hlast⟩
    · exact ⟨[], leaves, rfl, hlast⟩

/-- In the reverse order, the last leaf of a name is the one that is found. -/
theorem get?_reverse_eq_some_iff (leaves : List (String × Scalar)) (name : String) (scalar : Scalar) :
    Members.get? name leaves.reverse = some scalar ↔ LastLeaf leaves name scalar := by
  induction leaves with
  | nil =>
      constructor
      · intro h
        cases h
      · rintro ⟨before, after, h, _⟩
        simp at h
  | cons leaf leaves ih =>
      have hnone : Members.get? name leaves.reverse = none ↔ name ∉ Members.names leaves := by
        rw [Members.get?_eq_none_iff]
        simp [Members.names]
      have hone : Members.get? name [leaf] = some scalar ↔ leaf = (name, scalar) := by
        obtain ⟨n, s⟩ := leaf
        by_cases hn : n = name
        · simp [Members.get?_cons, hn]
        · simp [Members.get?_cons, hn]
      rw [List.reverse_cons, Members.get?_append, Option.or_eq_some_iff, ih, lastLeaf_cons, hnone, hone]
      rw [and_comm (a := name ∉ _)]

/-- A name that occurs has a last leaf. -/
theorem exists_lastLeaf {leaves : List (String × Scalar)} {name : String} (h : name ∈ Members.names leaves) :
    ∃ scalar, LastLeaf leaves name scalar := by
  simp only [← get?_reverse_eq_some_iff, ← Option.isSome_iff_exists]
  rw [← Members.has, Members.has_iff]
  simpa [Members.names] using h

/-- A leaf is found under a name if all leaves of that name are the same. -/
theorem get?_reverse_of_only {leaves : List (String × Scalar)} {name : String} {scalar : Scalar}
    (hmem : (name, scalar) ∈ leaves) (honly : ∀ s, (name, s) ∈ leaves → s = scalar) :
    Members.get? name leaves.reverse = some scalar := by
  obtain ⟨last, hlast⟩ := exists_lastLeaf (List.mem_map.mpr ⟨_, hmem, rfl⟩)
  rw [← get?_reverse_eq_some_iff] at hlast
  rw [hlast, honly last (List.mem_reverse.mp (Members.mem_of_get? hlast))]

/-- The leaves under the names that placeholders use are those of the flat view. -/
theorem names_eq {record : Json} {flat : Flat} (h : record.flatten = .ok flat) :
    names record = .ok (named record flat) := by
  cases hleaf : record.isLeaf with
  | true =>
      obtain ⟨s, rfl, rfl⟩ := (Json.flatten_leaf hleaf flat).mp h
      cases s <;> rfl
  | false =>
      have hnamed : named record flat = flat.map fun (path, scalar) => (Path.text path, scalar) := by
        simp [named, leafName, hleaf]
      rw [hnamed]
      cases record with
      | array items => rw [names, h]; rfl
      | object members => rw [names, h]; rfl
      | _ => cases hleaf

/-! ## Single steps of the scan -/

section Steps

variable (source : String)

theorem head?_ne_of_single {c : Char} {rest : List Char} (hrest : ∀ others, rest = c :: others → False) :
    rest.head? ≠ some c := by
  rw [ne_eq, List.head?_eq_some_iff]
  rintro ⟨others, hothers⟩
  exact hrest others hothers

/-- A brace before itself is text, and a brace alone opens a placeholder or closes nothing. -/
theorem scanText_cons (read : List Char) (c : Char) (rest : List Char) :
    scanText source read (c :: rest) =
      if isBrace c then
        if rest.head? = some c then scanText source (c :: read) rest.tail
        else if c = '\x7b' then (scanPlaceholder source [] rest).map (textPiece read ++ ·)
        else .error (.strayBrace '\x7d' source)
      else scanText source (c :: read) rest := by
  rw [scanText.eq_def]
  split
  case h_1 h => cases h
  case h_2 h =>
    cases h
    rfl
  case h_3 h =>
    cases h
    rfl
  case h_4 hsingle h =>
    cases h
    have hopen : isBrace '\x7b' := Or.inl rfl
    rw [if_pos hopen, if_neg (head?_ne_of_single hsingle), if_pos rfl]
    cases scanPlaceholder source [] rest <;> rfl
  case h_5 hsingle h =>
    cases h
    have hclose : isBrace '\x7d' := Or.inr rfl
    rw [if_pos hclose, if_neg (head?_ne_of_single hsingle), if_neg (by decide)]
  case h_6 hopen hclose h =>
    cases h
    have hc : ¬ isBrace c := not_or.mpr ⟨hopen, hclose⟩
    rw [if_neg hc]

theorem scanText_opening (read : List Char) {rest : List Char} (hrest : ∀ others, rest = '\x7b' :: others → False) :
    scanText source read ('\x7b' :: rest) = (scanPlaceholder source [] rest).map (textPiece read ++ ·) := by
  have hopen : isBrace '\x7b' := Or.inl rfl
  rw [scanText_cons, if_pos hopen, if_neg (head?_ne_of_single hrest), if_pos rfl]

theorem scanText_open {c : Char} (hc : ¬ isBrace c) (read rest : List Char) :
    scanText source read ('\x7b' :: c :: rest) =
      (scanPlaceholder source [] (c :: rest)).map (textPiece read ++ ·) :=
  scanText_opening source read fun _ h => hc (Or.inl (List.cons.inj h).1)

theorem scanPlaceholder_end (read rest : List Char) :
    scanPlaceholder source read ('\x7d' :: rest) = (do
      let piece ← placeholder source read.reverse
      let others ← scanText source [] rest
      return piece :: others) :=
  rfl

theorem scanPlaceholder_plain {c : Char} (hc : ¬ isBrace c) (read rest : List Char) :
    scanPlaceholder source read (c :: rest) = scanPlaceholder source (c :: read) rest := by
  obtain ⟨hopen, hclose⟩ := not_or.mp hc
  rw [scanPlaceholder] <;> intros <;> contradiction

/-- Without braces, what stands between braces is read up to the closing one. -/
theorem scanPlaceholder_close (read inside rest : List Char) (hinside : ∀ c ∈ inside, ¬ isBrace c) :
    scanPlaceholder source read (inside ++ '\x7d' :: rest) = (do
      let piece ← placeholder source (read.reverse ++ inside)
      let others ← scanText source [] rest
      return piece :: others) := by
  induction inside generalizing read with
  | nil =>
      rw [List.nil_append, scanPlaceholder_end, List.append_nil]
  | cons c inside ih =>
      obtain ⟨hc, hinside⟩ := List.forall_mem_cons.mp hinside
      rw [List.cons_append, scanPlaceholder_plain source hc, ih _ hinside, List.reverse_cons, List.append_assoc,
        List.singleton_append]

end Steps

/-! ## The written form is read -/

section Written

variable {name : String} {spec : Option String}

theorem inner_ne_nil (h : (Item.placeholder name spec).Valid) : inner name spec ≠ [] := by
  have hname : name.toList ≠ [] := by
    simpa using h.1
  cases spec with
  | none => exact hname
  | some spec => simp [inner]

theorem not_isBrace_of_mem_inner (h : (Item.placeholder name spec).Valid) :
    ∀ c ∈ inner name spec, ¬ isBrace c := by
  obtain ⟨-, hname, hspec⟩ := h
  intro c hc
  cases spec with
  | none => exact (hname c hc).1
  | some spec =>
      rcases List.mem_append.mp hc with hc | hc
      · exact (hname c hc).1
      · rcases List.mem_cons.mp hc with rfl | hc
        · decide
        · exact (hspec spec rfl).1 c hc

/-- A placeholder is read from what stands between its braces. -/
theorem placeholder_inner (source : String) (h : (Item.placeholder name spec).Valid) :
    placeholder source (inner name spec) =
      .ok (.placeholder name (spec.bind fun s => FormatSpec.parse? s.toList)) := by
  have hinner : (inner name spec).isEmpty = false := by
    simpa using inner_ne_nil h
  obtain ⟨hne, hname, hspec⟩ := h
  have hcolon : ∀ c ∈ name.toList, (c != ':') = true := by
    intro c hc
    simpa using (hname c hc).2
  have htake : ∀ rest, (rest = [] ∨ ∃ r, rest = ':' :: r) →
      (name.toList ++ rest).takeWhile (· != ':') = name.toList ∧
        (name.toList ++ rest).dropWhile (· != ':') = rest := by
    intro rest hrest
    rw [List.takeWhile_append_of_pos hcolon, List.dropWhile_append_of_pos hcolon]
    rcases hrest with rfl | ⟨r, rfl⟩ <;> simp
  simp only [placeholder, hinner, Bool.false_eq_true, if_false]
  cases spec with
  | none =>
      obtain ⟨h₁, h₂⟩ := htake [] (Or.inl rfl)
      rw [List.append_nil] at h₁ h₂
      simp only [inner, h₁, h₂, String.ofList_toList]
      rfl
  | some spec =>
      obtain ⟨h₁, h₂⟩ := htake (':' :: spec.toList) (Or.inr ⟨_, rfl⟩)
      obtain ⟨parsed, hparsed⟩ := Option.isSome_iff_exists.mp (hspec spec rfl).2
      have hnonempty : name.toList.isEmpty = false := by
        simpa using hne
      simp only [inner, h₁, h₂, hparsed, hnonempty, String.ofList_toList, Bool.false_eq_true, if_false]
      simp [hparsed]

end Written

/-! ## All that is read is a written form -/

theorem parse_of_scan {source : String} {pieces : List Piece} (h : scanText source [] source.toList = .ok pieces) :
    parse source = .ok ⟨.str source, pieces⟩ := by
  simp only [parse, ofScalar, Scalar.text, h]

end Literal
end RecordSearch
