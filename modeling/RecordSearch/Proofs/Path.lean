import RecordSearch.Path

/-!
# Paths and their texts

A text is cut at its separators into names, and the texts of the segments of a path are joined by separators.  Joining
gives back every text that was cut.  Cutting gives back a path of names, but for a name that has the separator itself,
and for the empty name alone, which has the text of the empty path.

* `Text.notMem_of_mem_splitOn`: a piece of a text that is cut at a character does not have this character.
* `Readable`: the paths that are read from texts; `parseWith_eq_iff`: such a path is read from its text, and from no
  other text.
* `Segment.asKey`: the name that a segment is read as.
* `parseWith_joined_iff`: the paths that are read from their text as the names of their segments, for any separator.
* `joined_parseWith_joined`: the main result.
-/

namespace RecordSearch

theorem Text.notMem_of_mem_splitOn {c : Char} {cs piece : List Char} (h : piece ∈ cs.splitOn c) : c ∉ piece := by
  induction cs generalizing piece with
  | nil =>
      rw [List.splitOn_nil, List.mem_singleton] at h
      subst h
      exact List.not_mem_nil
  | cons d cs ih =>
      rw [List.splitOn_cons_eq_if_modifyHead] at h
      split at h
      · rcases List.mem_cons.mp h with rfl | hrest
        · exact List.not_mem_nil
        · exact ih hrest
      · rename_i hd
        obtain ⟨first, rest, hpieces⟩ := List.exists_cons_of_ne_nil (List.splitOn_ne_nil c cs)
        rw [hpieces] at ih
        rw [hpieces, List.modifyHead_cons] at h
        rcases List.mem_cons.mp h with rfl | hrest
        · have hfirst : c ∉ first := ih List.mem_cons_self
          have hcd : c ≠ d := fun hcd => hd (beq_iff_eq.mpr hcd.symm)
          exact List.not_mem_cons_of_ne_of_not_mem hcd hfirst
        · exact ih (List.mem_cons_of_mem _ hrest)

/-- The name that a segment is read as: an index is read as the name of its decimal digits. -/
def Segment.asKey : Segment → Segment
  | key name => key name
  | index i => key (String.ofList (Decimal.digits i))

namespace Segment

theorem asKey_eq (s : Segment) : s.asKey = key s.text := by
  cases s with
  | key name => rfl
  | index i => rfl

@[simp] theorem text_asKey (s : Segment) : s.asKey.text = s.text := by
  rw [asKey_eq, text]

theorem text_eq_empty_iff (s : Segment) : s.text = "" ↔ s = key "" := by
  cases s with
  | key name => rw [text, key.injEq]
  | index i =>
      have htext : (index i).text ≠ "" := by
        rw [ne_eq, ← String.toList_inj, text, String.toList_ofList]
        exact Nat.toDigits_ne_nil
      simp [htext]

/-- A character that is no digit is in the texts of names only. -/
theorem notMem_text_index {c : Char} (hc : c.isDigit = false) (i : Nat) : c ∉ (index i).text.toList := by
  rw [text, String.toList_ofList]
  intro hmem
  rw [Decimal.isDigit_of_mem_digits hmem] at hc
  cases hc

end Segment

namespace Path

/-- The path has only names, none of them has the separator, and it is not the empty name alone. -/
structure Readable (separator : Char) (path : Path) : Prop where
  names : ∀ s ∈ path, ∃ name, s = .key name ∧ separator ∉ name.toList
  ne_emptyName : path ≠ [.key ""]

section Reading

variable {separator : Char} {path : Path}

theorem readable_parseWith (separator : Char) (source : String) : (parseWith separator source).Readable separator := by
  by_cases hsource : source = ""
  · rw [parseWith, if_pos hsource]
    exact ⟨fun s hs => absurd hs List.not_mem_nil, (List.cons_ne_nil _ _).symm⟩
  · constructor
    case names =>
      intro s hs
      rw [parseWith, if_neg hsource, List.mem_map] at hs
      obtain ⟨piece, hpiece, rfl⟩ := hs
      refine ⟨_, rfl, ?_⟩
      rw [String.toList_ofList]
      exact Text.notMem_of_mem_splitOn hpiece
    -- The empty name alone would have to be read from its text, which is empty.
    case ne_emptyName =>
      intro hpath
      have htext := joined_parseWith separator source
      rw [hpath] at htext
      exact hsource htext.symm

/-- The empty path and the empty name alone, and no other paths, have the empty text. -/
theorem joined_eq_empty_iff : joined separator path = "" ↔ path = [] ∨ path = [.key ""] := by
  cases path with
  | nil => exact iff_of_true rfl (Or.inl rfl)
  | cons s rest =>
      cases rest with
      | nil =>
          have htext : joined separator [s] = s.text := String.intercalate_singleton
          simp [htext, Segment.text_eq_empty_iff]
      -- Two segments have a separator between them.
      | cons t rest =>
          rw [← String.toList_inj, joined, String.toList_intercalate]
          simp [List.intercalate_cons_cons]

/-- A path is read from a text exactly if it can be read at all and the text is its own. -/
theorem parseWith_eq_iff (source : String) :
    parseWith separator source = path ↔ joined separator path = source ∧ path.Readable separator := by
  constructor
  · rintro rfl
    exact ⟨joined_parseWith separator source, readable_parseWith separator source⟩
  · rintro ⟨rfl, h⟩
    by_cases hempty : joined separator path = ""
    · rcases joined_eq_empty_iff.mp hempty with rfl | hpath
      · rfl
      · exact absurd hpath h.ne_emptyName
    · have hkeys : ∀ s ∈ path, separator ∉ s.text.toList ∧ Segment.key s.text = s := by
        intro s hs
        obtain ⟨name, rfl, hname⟩ := h.names s hs
        exact ⟨hname, rfl⟩
      rw [parseWith_joined hempty fun s hs => (hkeys s hs).1]
      exact (List.map_congr_left fun s hs => (hkeys s hs).2).trans (List.map_id' path)

theorem readable_iff :
    path.Readable separator ↔
      (∀ i, Segment.index i ∉ path) ∧ (∀ name, Segment.key name ∈ path → separator ∉ name.toList) ∧
        path ≠ [.key ""] := by
  constructor
  · intro h
    refine ⟨fun i hi => ?_, fun name hname => ?_, h.ne_emptyName⟩
    · obtain ⟨name, hkey, -⟩ := h.names _ hi
      cases hkey
    · obtain ⟨_, hkey, hseparator⟩ := h.names _ hname
      cases hkey
      exact hseparator
  · rintro ⟨hindices, hnames, hne⟩
    refine ⟨fun s hs => ?_, hne⟩
    cases s with
    | key name => exact ⟨name, rfl, hnames name hs⟩
    | index i => exact absurd hs (hindices i)

theorem joined_map_asKey (separator : Char) (path : Path) :
    joined separator (path.map Segment.asKey) = joined separator path := by
  rw [joined, joined, List.map_map]
  exact congrArg _ (List.map_congr_left fun s _ => s.text_asKey)

theorem map_asKey_eq_emptyName_iff : path.map Segment.asKey = [.key ""] ↔ path = [.key ""] := by
  rw [List.map_eq_singleton_iff]
  constructor
  · rintro ⟨s, rfl, hs⟩
    rw [Segment.asKey_eq] at hs
    rw [s.text_eq_empty_iff.mp (Segment.key.inj hs)]
  · rintro rfl
    exact ⟨_, rfl, rfl⟩

theorem readable_map_asKey_iff :
    Readable separator (path.map Segment.asKey) ↔
      (∀ s ∈ path, separator ∉ s.text.toList) ∧ path ≠ [.key ""] := by
  constructor
  · intro h
    refine ⟨fun s hs => ?_, fun hpath => h.ne_emptyName (map_asKey_eq_emptyName_iff.mpr hpath)⟩
    obtain ⟨name, hkey, hname⟩ := h.names _ (List.mem_map_of_mem hs)
    rw [← s.text_asKey, hkey]
    exact hname
  · rintro ⟨hseparator, hne⟩
    refine ⟨fun s hs => ?_, fun hpath => hne (map_asKey_eq_emptyName_iff.mp hpath)⟩
    obtain ⟨t, ht, rfl⟩ := List.mem_map.mp hs
    exact ⟨t.text, t.asKey_eq, hseparator t ht⟩

/-- A path is read from its text as the names of its segments exactly if no segment has the separator in its text and
the path is not the empty name alone. -/
theorem parseWith_joined_iff :
    parseWith separator (joined separator path) = path.map Segment.asKey ↔
      (∀ s ∈ path, separator ∉ s.text.toList) ∧ path ≠ [.key ""] := by
  rw [parseWith_eq_iff, joined_map_asKey, readable_map_asKey_iff]
  exact and_iff_right rfl

/-- A digit can be a separator too, but it then cuts indices. -/
example : parseWith '1' (joined '1' [.index 212]) = [.key "2", .key "2"] := by
  decide

theorem forall_notMem_text_iff (hseparator : separator.isDigit = false) :
    (∀ s ∈ path, separator ∉ s.text.toList) ↔ ∀ name, Segment.key name ∈ path → separator ∉ name.toList := by
  constructor
  · exact fun h name hname => h _ hname
  · intro h s hs
    cases s with
    | key name => exact h name hs
    | index i => exact Segment.notMem_text_index hseparator i

end Reading

/-- Every text is that of the path that is read from it.  With a separator that is no digit, a path is read from its
text, every index as the name of its digits, exactly if no name has the separator and the path is not the empty name
alone; with dots the path itself is read exactly if, in addition, it has no index. -/
theorem joined_parseWith_joined (separator : Char) (path : Path) :
    (∀ source, joined separator (parseWith separator source) = source) ∧
    (separator.isDigit = false →
      (parseWith separator (joined separator path) = path.map Segment.asKey ↔
        (∀ name, Segment.key name ∈ path → separator ∉ name.toList) ∧ path ≠ [.key ""])) ∧
    (parse path.text = path ↔
      (∀ i, Segment.index i ∉ path) ∧ (∀ name, Segment.key name ∈ path → '.' ∉ name.toList) ∧ path ≠ [.key ""]) := by
  refine ⟨joined_parseWith separator, fun hseparator => ?_, ?_⟩
  · rw [parseWith_joined_iff, forall_notMem_text_iff hseparator]
  · rw [parse, parseWith_eq_iff, text, readable_iff]
    exact and_iff_right rfl

/-- Empty names at both ends and inside, an index, and a dot in a name between slashes. -/
theorem joined_parseWith_joined_slashes :
    let path : Path := [.key "", .key "tags", .index 12, .key "", .key "a.b", .key ""]
    '/'.isDigit = false ∧ joined '/' (parseWith '/' "//a.b/") = "//a.b/" ∧
      parseWith '/' (joined '/' path) = [.key "", .key "tags", .key "12", .key "", .key "a.b", .key ""] ∧
      parseWith '/' (joined '/' [.key "a/b"]) ≠ [.key "a/b"] ∧ parse path.text ≠ path := by
  intro path
  have hslash : '/'.isDigit = false := by
    decide
  obtain ⟨hsource, hread, hself⟩ := joined_parseWith_joined '/' path
  refine ⟨hslash, hsource _, (hread hslash).mpr ⟨?_, by decide⟩, ?_, ?_⟩
  · simp [path]
  · intro h
    have hnames := (((joined_parseWith_joined '/' [.key "a/b"]).2.1 hslash).mp h).1
    exact hnames "a/b" List.mem_cons_self (by decide)
  · intro h
    have hindices := (hself.mp h).1
    exact hindices 12 (by decide)

end Path
end RecordSearch
