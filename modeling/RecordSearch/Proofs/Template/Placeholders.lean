import RecordSearch.Field.Search
import RecordSearch.Proofs.Flat.Lookup
import RecordSearch.Proofs.Template.Decoding
import RecordSearch.Proofs.Template.Grammar
import RecordSearch.Template.Render

/-!
# Placeholders and lookup

A placeholder stands for the leaf with its name; a field of a search looks its key up.  On records without dotted names
the two agree, but for indices that are not written plainly.

* `Reaches`: a lookup of the name finds the scalar, and reads plain indices only.
* `get?_named_iff`: the last leaf of a name is the scalar that the name reaches, so no two leaves share a name.
* `render_braced`: a placeholder shows what its name reaches, and fails if it reaches nothing.
* `Shown`: what a template shows that renders a placeholder if there is a value at its name.
* `braced_agrees`: all of this for the placeholder and the template of one name.
-/

namespace RecordSearch
namespace Literal

open Json Traversal

/-- The text of a literal that is one placeholder. -/
def braced (name : String) : String :=
  "\x7b" ++ name ++ "\x7d"

/-- The literal that is one placeholder. -/
def ofName (name : String) : Literal :=
  ⟨.str (braced name), [.placeholder name none]⟩

/-- A lookup of the name finds the scalar, and reads plain indices only. -/
structure Reaches (record : Json) (name : String) (s : Scalar) : Prop where
  found : record.get (Path.parse name) = .ok s.toJson
  plain : record.PlainIndices (Path.parse name)

/-- What is shown for a record where there is a value at the key: nothing without one, and a scalar as the fields see
it.  A container may be shown as anything. -/
inductive Shown (record : Json) (key : Path) : String → Prop
  | nothing (h : record.get key = .error (.notFound key))
      (hfields : ∀ field : Field, field.key = key → ∀ query,
        field.compare record query = (field.validate query.criteria).map fun _ => query.acceptMissing) :
      Shown record key ""
  | scalar {s : Scalar} (h : record.get key = .ok s.toJson)
      (hfields : ∀ field : Field, field.key = key → ∀ query,
        field.compare record query = (field.test s.toJson query.criteria).map (· != query.invert)) :
      Shown record key s.text
  | container {v : Json} (h : record.get key = .ok v) (hv : v.isLeaf = false) (text : String) :
      Shown record key text

section Reading

variable {name : String} (hname : (Item.placeholder name none).Valid)
include hname

theorem parse_braced : parse (braced name) = .ok (ofName name) := by
  obtain ⟨c, inside, hc⟩ := List.exists_cons_of_ne_nil (inner_ne_nil hname)
  have hinner := not_isBrace_of_mem_inner hname
  have hfirst : ¬ isBrace c := hinner c (by rw [hc]; exact List.mem_cons_self)
  have hchars : (braced name).toList = '\x7b' :: c :: (inside ++ ['\x7d']) := by
    rw [← List.cons_append, ← hc]
    simp [braced, inner]
  have hscan : scanPlaceholder (braced name) [] (c :: (inside ++ ['\x7d'])) = .ok [.placeholder name none] := by
    rw [← List.cons_append, ← hc, scanPlaceholder_close _ _ _ _ hinner, List.reverse_nil, List.nil_append,
      placeholder_inner _ hname]
    rfl
  refine parse_of_scan ?_
  rw [hchars, scanText_open _ hfirst, hscan]
  rfl

theorem parse_ne_nil : Path.parse name ≠ [] := by
  intro h
  refine hname.1 ?_
  rw [← Path.text_parse name, h]
  rfl

/-- The template that shows a placeholder if there is a value at its name. -/
theorem ofJson_ifKey_braced :
    Template.ofJson (.object [("if_key", .string name), ("display_string", .string (braced name))]) =
      ⟨[], .ok (.ifKey (Path.parse name) (.literal (ofName name)))⟩ := by
  have hliteral : Template.ofJson (.string (braced name)) = ⟨[], .ok (.literal (ofName name))⟩ := by
    have hparse : ofScalar (.str (braced name)) = .ok (ofName name) := parse_braced hname
    have hread : Template.literalOfJson (.string (braced name)) = .ok (.literal (ofName name)) := by
      rw [Template.literalOfJson, bind_eq_ok_iff]
      refine ⟨.str (braced name), rfl, ?_⟩
      rw [hparse]
      rfl
    rw [Template.ofJson]
    · rw [hread]
      rfl
    all_goals simp
  rw [Template.ofJson_ifKey _ _ rfl]
  have hkey : Members.get? "if_key" [("if_key", .string name), ("display_string", .string (braced name))] =
      some (Template.keyJson (Path.parse name)) := by
    rw [Template.keyJson, Path.text_parse]
    rfl
  have hback : Template.ReadBack (Path.parse name) := by
    rw [Template.ReadBack, Path.text_parse]
  exact ⟨[], .ifKey hkey hback rfl hliteral, rfl⟩

end Reading

section Rendering

variable {record : Json} {flat : Flat} {name : String}

theorem render_ofName {leaves : List (String × Scalar)} (hnames : names record = .ok leaves) :
    (ofName name).render record =
      match Members.get? name leaves.reverse with
      | none => .error (.missingLeaf name)
      | some s => .ok s.text := by
  rw [render, hnames]
  change (do return String.ofList (← renderPieces leaves.reverse [.placeholder name none])) = _
  rw [renderPieces, renderPieces, renderPiece]
  cases Members.get? name leaves.reverse with
  | none => rfl
  | some s =>
      change Except.ok (String.ofList (s.text.toList ++ [])) = _
      rw [List.append_nil, String.ofList_toList]

variable (hrecord : record.isLeaf = false) (hdistinct : record.Distinct) (hdots : record.DotFree)
  (hflat : record.flatten = .ok flat) (hname : (Item.placeholder name none).Valid)
include hrecord hdistinct hdots hflat hname

/-- The leaves of a name are what the name reaches. -/
theorem mem_named_iff (s : Scalar) : (name, s) ∈ named record flat ↔ Reaches record name s := by
  obtain ⟨_, rfl⟩ := (flatten_eq_ok_iff record flat).mp hflat
  rw [mem_named_of_container hrecord, exists_leaf_text_iff hdistinct hdots hname.1, ← get_eq_ok_iff _ _ (parse_ne_nil hname)]
  exact ⟨fun h => ⟨h.1, h.2⟩, fun h => ⟨h.found, h.plain⟩⟩

/-- The last leaf of a name is the scalar that the name reaches. -/
theorem get?_named_iff (s : Scalar) :
    Members.get? name (named record flat).reverse = some s ↔ Reaches record name s := by
  have hmem := mem_named_iff hrecord hdistinct hdots hflat hname
  constructor
  · intro h
    have hlast := Members.mem_of_get? h
    exact (hmem s).mp (List.mem_reverse.mp hlast)
  · intro h
    refine get?_reverse_of_only ((hmem s).mpr h) fun t ht => ?_
    -- Lookup finds one value only.
    have hsame := Except.ok.inj (((hmem t).mp ht).found.symm.trans h.found)
    exact Scalar.toJson_injective hsame

/-- A placeholder shows the scalar that its name reaches, and fails if it reaches none. -/
theorem render_braced :
    (∀ text, (ofName name).render record = .ok text ↔ ∃ s, Reaches record name s ∧ text = s.text) ∧
    ∀ e, (ofName name).render record = .error e ↔ (¬ ∃ s, Reaches record name s) ∧ e = .missingLeaf name := by
  simp only [← get?_named_iff hrecord hdistinct hdots hflat hname, render_ofName (names_eq hflat)]
  cases Members.get? name (named record flat).reverse with
  | none => simp [eq_comm]
  | some s => simp [eq_comm]

/-- A template with the placeholder, shown where there is a value at its name. -/
theorem shown_ifKey (hplain : record.PlainIndices (Path.parse name)) :
    Shown record (Path.parse name) ((Template.ifKey (Path.parse name) (.literal (ofName name))).render record) := by
  have hpath := parse_ne_nil hname
  have hrendered : (Template.ifKey (Path.parse name) (.literal (ofName name))).render record =
      if record.has (Path.parse name) then
        (Template.literal (ofName name)).settle record ((ofName name).render record)
      else "" := by
    rw [Template.render, Template.attempt, Template.attempt, Template.settle]
  rw [hrendered]
  cases hget : record.get (Path.parse name) with
  | error e =>
      obtain ⟨_, rfl⟩ := (get_eq_error_iff record hpath e).mp hget
      have hnone : record.has (Path.parse name) = false := by
        rw [has, hget]
        rfl
      rw [hnone]
      refine .nothing hget fun field hkey query => ?_
      exact Field.compare_of_missing (hkey ▸ hget) query
  | ok v =>
      have hsome : record.has (Path.parse name) = true := by
        rw [has, hget]
        rfl
      cases hv : v.isLeaf with
      | false => exact .container hget hv _
      | true =>
          have hpart := part_of_follow? ((get_eq_ok_iff record v hpath).mp hget)
          obtain ⟨s, rfl⟩ := ((flatten_eq_ok_iff record flat).mp hflat).1 v hpart hv
          have hrender := ((render_braced hrecord hdistinct hdots hflat hname).1 s.text).mpr ⟨s, ⟨hget, hplain⟩, rfl⟩
          rw [hsome, hrender]
          refine .scalar hget fun field hkey query => ?_
          exact Field.compare_of_get (hkey ▸ hget) query

end Rendering

/-- **Placeholders and lookup agree.**  On a record, a placeholder shows the scalar that a lookup of its name finds if
every index on the way is written plainly, and the name is missing from the record otherwise.  A template that shows the
placeholder if there is a value at its name therefore shows what a field with this key sees, or nothing, as long as no
container is there. -/
theorem braced_agrees {name : String} (hne : name ≠ "") (hfree : ∀ c ∈ name.toList, ¬ isBrace c ∧ c ≠ ':') :
    ∃ literal template, parse (braced name) = .ok literal ∧
      Template.ofJson (.object [("if_key", .string name), ("display_string", .string (braced name))]) =
        ⟨[], .ok template⟩ ∧
      ∀ record flat, record.isLeaf = false → record.Distinct → record.DotFree → record.flatten = .ok flat →
        (∀ text, literal.render record = .ok text ↔ ∃ s, Reaches record name s ∧ text = s.text) ∧
        (∀ e, literal.render record = .error e ↔ (¬ ∃ s, Reaches record name s) ∧ e = .missingLeaf name) ∧
        (record.PlainIndices (Path.parse name) → Shown record (Path.parse name) (template.render record)) := by
  have hname : (Item.placeholder name none).Valid := ⟨hne, hfree, nofun⟩
  refine ⟨_, _, parse_braced hname, ofJson_ifKey_braced hname, ?_⟩
  intro record flat hrecord hdistinct hdots hflat
  obtain ⟨hok, herror⟩ := render_braced hrecord hdistinct hdots hflat hname
  exact ⟨hok, herror, shown_ifKey hrecord hdistinct hdots hflat hname⟩

/-- A name that leads through an array to a member without a name. -/
theorem braced_agrees_nested :
    let name := "tags.1."
    let record : Json := .object [("tags", .array [.string "short", .object [("", .int 3)]])]
    (∀ c ∈ name.toList, ¬ isBrace c ∧ c ≠ ':') ∧ record.Distinct ∧ record.DotFree ∧ Reaches record name (.int 3) ∧
      ∃ literal template, parse (braced name) = .ok literal ∧ literal.render record = .ok "3" ∧
        Template.ofJson (.object [("if_key", .string name), ("display_string", .string (braced name))]) =
          ⟨[], .ok template⟩ ∧
        Shown record (Path.parse name) (template.render record) := by
  intro name record
  have hchars : name.toList = ['t', 'a', 'g', 's', '.', '1', '.'] := by
    simp [name]
  have hfree : ∀ c ∈ name.toList, ¬ isBrace c ∧ c ≠ ':' := by
    rw [hchars]
    simp [isBrace]
  have hdistinct : record.Distinct := by
    simp only [record, distinct_object, distinct_array, List.forall_mem_cons]
    simp [distinct_leaf (v := .string _) rfl, distinct_leaf (v := .int _) rfl]
  have hdots : record.DotFree := by
    simp [record, DotFree, every_leaf (v := .string _) rfl, every_leaf (v := .int _) rfl, Path.defaultSeparator]
  have hpath : Path.parse "tags.1." = [.key "tags", .key "1", .key ""] := by
    decide
  have hplain : record.PlainIndices (Path.parse name) := by
    rw [hpath, plainIndices_cons]
    refine ⟨by simp [record], ?_⟩
    rintro _ ⟨rfl⟩
    rw [plainIndices_cons]
    refine ⟨fun _ _ => ⟨1, rfl⟩, ?_⟩
    rintro _ ⟨rfl⟩
    rw [plainIndices_cons]
    refine ⟨by simp, ?_⟩
    rintro _ ⟨rfl⟩
    exact plainIndices_nil _
  have hfound : record.get (Path.parse name) = .ok (.int 3) := by
    rw [hpath]
    rfl
  have hreaches : Reaches record name (.int 3) := ⟨hfound, hplain⟩
  obtain ⟨literal, template, hparse, htemplate, hagrees⟩ := @braced_agrees name (by decide) hfree
  obtain ⟨hrender, _, hshown⟩ := hagrees record [([.key "tags", .index 0], .str "short"),
    ([.key "tags", .index 1, .key ""], .int 3)] rfl hdistinct hdots rfl
  exact ⟨hfree, hdistinct, hdots, hreaches, literal, template, hparse, (hrender "3").mpr ⟨.int 3, hreaches, rfl⟩,
    htemplate, hshown hplain⟩

end Literal
end RecordSearch
