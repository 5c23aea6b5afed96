import RecordSearch.Template.Json
import RecordSearch.Proofs.Json.Parts
import RecordSearch.Proofs.Traversal

/-!
# Decoding of templates

What a decoding of a template that succeeds has found, and the templates that can be decoded at all.

* `Reads`, `ofJson_object_iff`: an object is decoded exactly if the members of its kind are.
* `Canonical`, `canonical_of_ofJson`: the literals, keys and tables of a template are such as decoding gives them.
* `ofJson_toJson`: a canonical template is decoded from its own value, without warnings.
-/

namespace RecordSearch
namespace Template

open Traversal

/-- The path is read from its own text. -/
def ReadBack (key : Path) : Prop :=
  Path.parse key.text = key

/-! ## Members -/

section Members

variable {members : Members}

theorem keyPath_eq_ok_iff (name : String) (key : Path) :
    keyPath name members = .ok key ↔ Members.get? name members = some (keyJson key) ∧ ReadBack key := by
  rw [keyPath]
  constructor
  · intro h
    split at h
    · rename_i written hwritten
      cases h
      rw [hwritten, keyJson, Path.text_parse]
      refine ⟨rfl, ?_⟩
      rw [ReadBack, Path.text_parse]
    · cases h
  · rintro ⟨hkey, hback⟩
    rw [hkey, keyJson]
    exact congrArg Except.ok hback

theorem forEachKey_eq_ok_iff (hforall : Members.has "forall" members = true) (key : Option Path) :
    forEachKey members = .ok key ↔
      Members.get? "forall" members = some ((key.map keyJson).getD .null) ∧ ∀ k ∈ key, ReadBack k := by
  obtain ⟨written, hwritten⟩ := Option.isSome_iff_exists.mp hforall
  by_cases hnull : written = .null
  · subst hnull
    simp only [forEachKey, hwritten]
    cases key with
    | none => simp
    | some key => simp [keyJson]
  · have hpath : forEachKey members = (keyPath "forall" members).map some := by
      rw [forEachKey, hwritten]
      split
      · cases ‹some written = none›
      · cases ‹some written = some .null›
        exact absurd rfl hnull
      · rfl
    rw [hpath, map_eq_ok_iff]
    simp only [keyPath_eq_ok_iff]
    constructor
    · rintro ⟨k, ⟨hkey, hback⟩, rfl⟩
      exact ⟨hkey, by simpa using hback⟩
    · rintro ⟨hkey, hback⟩
      cases key with
      | none =>
          rw [hwritten] at hkey
          exact absurd (Option.some.inj hkey) hnull
      | some key => exact ⟨key, ⟨hkey, hback key rfl⟩, rfl⟩

theorem separatorOf_eq_ok_iff (separator : String) :
    separatorOf members = .ok separator ↔
      Members.get? "separator" members = some (.string separator) ∨
        Members.get? "separator" members = none ∧ separator = "" := by
  rw [separatorOf]
  split
  · rename_i hnone
    simp [hnone, eq_comm]
  · rename_i written hwritten
    simp [hwritten]
  · rename_i found hstring hfound
    simp only [hfound, reduceCtorEq, false_and, or_false, false_iff, Option.some.injEq]
    rintro rfl
    exact hstring separator rfl

theorem tableOf_eq_ok_iff (warnings : List Warning) (entries : List (String × Template)) :
    tableOf members = ⟨warnings, .ok entries⟩ ↔
      ∃ written, Members.get? "table" members = some (.object written) ∧ Members.has "" written = true ∧
        ofEntries written = ⟨warnings, .ok entries⟩ := by
  induction members with
  | nil =>
      simp [tableOf, Decoding.fail]
  | cons m rest ih =>
      obtain ⟨n, v⟩ := m
      by_cases hn : n = "table"
      · subst hn
        cases v with
        | object written =>
            by_cases hdefault : Members.has "" written = true
            · simp [tableOf, Members.get?_cons, hdefault]
            · simp [tableOf, Members.get?_cons, hdefault, Decoding.fail]
        | _ => simp [tableOf, Members.get?_cons, Decoding.fail]
      · rw [tableOf_cons_of_ne hn, ih, Members.get?_cons, if_neg hn]

end Members

/-! ## Objects -/

/-- The members that a kind must have give a template; `warnings` are those of the templates inside. -/
inductive Reads (members : Members) : Signature → List Warning → Template → Prop
  | table {key : Path} {written : Members} {warnings : List Warning} {entries : List (String × Template)}
      (hkey : Members.get? "key" members = some (keyJson key)) (hback : ReadBack key)
      (htable : Members.get? "table" members = some (.object written)) (hdefault : Members.has "" written = true)
      (h : ofEntries written = ⟨warnings, .ok entries⟩) :
      Reads members .table warnings (.table key entries)
  | forEach {key : Option Path} {value : Json} {separator : String} {warnings : List Warning} {template : Template}
      (hkey : Members.get? "forall" members = some ((key.map keyJson).getD .null)) (hback : ∀ k ∈ key, ReadBack k)
      (hseparator : Members.get? "separator" members = some (.string separator) ∨
        Members.get? "separator" members = none ∧ separator = "")
      (hvalue : Members.get? "display_string" members = some value) (h : ofJson value = ⟨warnings, .ok template⟩) :
      Reads members .forEach warnings (.forEach key template separator)
  | ifKey {key : Path} {value : Json} {warnings : List Warning} {template : Template}
      (hkey : Members.get? "if_key" members = some (keyJson key)) (hback : ReadBack key)
      (hvalue : Members.get? "display_string" members = some value) (h : ofJson value = ⟨warnings, .ok template⟩) :
      Reads members .ifKey warnings (.ifKey key template)
  | byType {key : Path} {v₁ v₂ v₃ : Json} {w₁ w₂ w₃ : List Warning} {t₁ t₂ t₃ : Template}
      (hkey : Members.get? "if_json_type" members = some (keyJson key)) (hback : ReadBack key)
      (hvalue : Members.get? "json_value" members = some v₁) (h₁ : ofJson v₁ = ⟨w₁, .ok t₁⟩)
      (harray : Members.get? "json_array" members = some v₂) (h₂ : ofJson v₂ = ⟨w₂, .ok t₂⟩)
      (hobject : Members.get? "json_object" members = some v₃) (h₃ : ofJson v₃ = ⟨w₃, .ok t₃⟩) :
      Reads members .byType (w₁ ++ w₂ ++ w₃) (.byType key t₁ t₂ t₃)

theorem exists_get?_of_required {members : Members} {signature : Signature}
    (h : Signature.ofMembers? members = some signature) (name : String) (hname : name ∈ signature.required) :
    ∃ value, Members.get? name members = some value := by
  have hall := List.find?_some h
  rw [List.all_eq_true] at hall
  exact Option.isSome_iff_exists.mp (hall name hname)

section Kinds

variable {members : Members} (warnings : List Warning) (template : Template)

/-- A decoding of the members of a kind, after the warnings of the members that the kind has no use for. -/
def DecodedAs (members : Members) (signature : Signature) (warnings : List Warning) (template : Template) : Prop :=
  ∃ inside, Reads members signature inside template ∧
    warnings = (signature.unusedNames members).map .unusedInTemplate ++ inside

theorem ofJson_table (hsignature : Signature.ofMembers? members = some .table) :
    ofJson (.object members) = ⟨warnings, .ok template⟩ ↔ DecodedAs members .table warnings template := by
  simp only [ofJson, hsignature]
  rw [Decoding.warn_bind_eq_ok_iff]
  refine exists_congr fun inside => and_congr_left fun _ => ?_
  rw [Decoding.lift_bind_eq_ok_iff]
  constructor
  · rintro ⟨key, hkey, hrest⟩
    obtain ⟨entries, hentries, rfl⟩ := (Decoding.bind_pure_eq_ok_iff _ _ _ _).mp hrest
    obtain ⟨hkey, hback⟩ := (keyPath_eq_ok_iff _ _).mp hkey
    obtain ⟨written, htable, hdefault, h⟩ := (tableOf_eq_ok_iff _ _).mp hentries
    exact Reads.table hkey hback htable hdefault h
  · rintro (⟨hkey, hback, htable, hdefault, h⟩)
    refine ⟨_, (keyPath_eq_ok_iff _ _).mpr ⟨hkey, hback⟩, ?_⟩
    rw [Decoding.bind_pure_eq_ok_iff]
    exact ⟨_, (tableOf_eq_ok_iff _ _).mpr ⟨_, htable, hdefault, h⟩, rfl⟩

theorem ofJson_forEach (hsignature : Signature.ofMembers? members = some .forEach) :
    ofJson (.object members) = ⟨warnings, .ok template⟩ ↔ DecodedAs members .forEach warnings template := by
  obtain ⟨value, hvalue⟩ := exists_get?_of_required hsignature "display_string" (by decide)
  obtain ⟨written, hwritten⟩ := exists_get?_of_required hsignature "forall" (by decide)
  have hforall : Members.has "forall" members = true := by
    rw [Members.has, hwritten]
    rfl
  simp only [ofJson, hsignature]
  rw [Decoding.warn_bind_eq_ok_iff]
  refine exists_congr fun inside => and_congr_left fun _ => ?_
  rw [Decoding.lift_bind_eq_ok_iff]
  constructor
  · rintro ⟨key, hkey, hrest⟩
    obtain ⟨separator, hseparator, hrest⟩ := (Decoding.lift_bind_eq_ok_iff _ _ _ _).mp hrest
    obtain ⟨inner, hinner, rfl⟩ := (Decoding.bind_pure_eq_ok_iff _ _ _ _).mp hrest
    obtain ⟨hkey, hback⟩ := (forEachKey_eq_ok_iff hforall _).mp hkey
    rw [ofMember_eq hvalue] at hinner
    exact Reads.forEach hkey hback ((separatorOf_eq_ok_iff _).mp hseparator) hvalue hinner
  · rintro (_ | ⟨hkey, hback, hseparator, hvalue, h⟩)
    refine ⟨_, (forEachKey_eq_ok_iff hforall _).mpr ⟨hkey, hback⟩, ?_⟩
    rw [Decoding.lift_bind_eq_ok_iff]
    refine ⟨_, (separatorOf_eq_ok_iff _).mpr hseparator, ?_⟩
    rw [Decoding.bind_pure_eq_ok_iff, ofMember_eq hvalue]
    exact ⟨_, h, rfl⟩

theorem ofJson_ifKey (hsignature : Signature.ofMembers? members = some .ifKey) :
    ofJson (.object members) = ⟨warnings, .ok template⟩ ↔ DecodedAs members .ifKey warnings template := by
  obtain ⟨value, hvalue⟩ := exists_get?_of_required hsignature "display_string" (by decide)
  simp only [ofJson, hsignature]
  rw [Decoding.warn_bind_eq_ok_iff]
  refine exists_congr fun inside => and_congr_left fun _ => ?_
  rw [Decoding.lift_bind_eq_ok_iff]
  constructor
  · rintro ⟨key, hkey, hrest⟩
    obtain ⟨inner, hinner, rfl⟩ := (Decoding.bind_pure_eq_ok_iff _ _ _ _).mp hrest
    obtain ⟨hkey, hback⟩ := (keyPath_eq_ok_iff _ _).mp hkey
    rw [ofMember_eq hvalue] at hinner
    exact Reads.ifKey hkey hback hvalue hinner
  · rintro (_ | _ | ⟨hkey, hback, hvalue, h⟩)
    refine ⟨_, (keyPath_eq_ok_iff _ _).mpr ⟨hkey, hback⟩, ?_⟩
    rw [Decoding.bind_pure_eq_ok_iff, ofMember_eq hvalue]
    exact ⟨_, h, rfl⟩

theorem ofJson_byType (hsignature : Signature.ofMembers? members = some .byType) :
    ofJson (.object members) = ⟨warnings, .ok template⟩ ↔ DecodedAs members .byType warnings template := by
  obtain ⟨v₁, hvalue⟩ := exists_get?_of_required hsignature "json_value" (by decide)
  obtain ⟨v₂, harray⟩ := exists_get?_of_required hsignature "json_array" (by decide)
  obtain ⟨v₃, hobject⟩ := exists_get?_of_required hsignature "json_object" (by decide)
  simp only [ofJson, hsignature]
  rw [Decoding.warn_bind_eq_ok_iff]
  refine exists_congr fun inside => and_congr_left fun _ => ?_
  rw [Decoding.lift_bind_eq_ok_iff, ofMember_eq hvalue, ofMember_eq harray, ofMember_eq hobject]
  constructor
  · rintro ⟨key, hkey, hrest⟩
    obtain ⟨t₁, w₁, _, h₁, hrest₁, rfl⟩ := (Decoding.bind_eq_ok_iff _ _ _ _).mp hrest
    obtain ⟨t₂, w₂, w₃, h₂, hrest₂, rfl⟩ := (Decoding.bind_eq_ok_iff _ _ _ _).mp hrest₁
    obtain ⟨t₃, h₃, rfl⟩ := (Decoding.bind_pure_eq_ok_iff _ _ _ _).mp hrest₂
    obtain ⟨hkey, hback⟩ := (keyPath_eq_ok_iff _ _).mp hkey
    rw [← List.append_assoc]
    exact Reads.byType hkey hback hvalue h₁ harray h₂ hobject h₃
  · intro hreads
    cases hreads with
    | byType hkey hback hvalue' h₁ harray' h₂ hobject' h₃ =>
        obtain rfl := Option.some.inj (hvalue.symm.trans hvalue')
        obtain rfl := Option.some.inj (harray.symm.trans harray')
        obtain rfl := Option.some.inj (hobject.symm.trans hobject')
        refine ⟨_, (keyPath_eq_ok_iff _ _).mpr ⟨hkey, hback⟩, ?_⟩
        rw [List.append_assoc, Decoding.bind_eq_ok_iff]
        refine ⟨_, _, _, h₁, ?_, rfl⟩
        rw [Decoding.bind_eq_ok_iff]
        refine ⟨_, _, _, h₂, ?_, rfl⟩
        rw [Decoding.bind_pure_eq_ok_iff]
        exact ⟨_, h₃, rfl⟩

end Kinds

/-- An object is decoded exactly if it has a kind and the members of that kind are decoded. -/
theorem ofJson_object_iff (members : Members) (warnings : List Warning) (template : Template) :
    ofJson (.object members) = ⟨warnings, .ok template⟩ ↔
      ∃ signature, Signature.ofMembers? members = some signature ∧ DecodedAs members signature warnings template := by
  cases hsignature : Signature.ofMembers? members with
  | none => simp [ofJson, hsignature, Decoding.fail]
  | some signature =>
      simp only [Option.some.injEq, exists_eq_left']
      cases signature with
      | table => exact ofJson_table warnings template hsignature
      | forEach => exact ofJson_forEach warnings template hsignature
      | ifKey => exact ofJson_ifKey warnings template hsignature
      | byType => exact ofJson_byType warnings template hsignature

/-! ## Leaves, items and entries -/

theorem source_of_ofScalar {scalar : Scalar} {literal : Literal} (h : Literal.ofScalar scalar = .ok literal) :
    literal.source = scalar := by
  rw [Literal.ofScalar] at h
  split at h
  · cases h
    rfl
  · cases h

/-- Null writes the default template, a scalar its literal, and no other leaf a template. -/
theorem ofJson_leaf_iff {value : Json} (hvalue : value.isLeaf = true) (warnings : List Warning) (template : Template) :
    ofJson value = ⟨warnings, .ok template⟩ ↔
      warnings = [] ∧
        (value = .null ∧ template = .default ∨
          ∃ scalar literal, value = scalar.toJson ∧ Literal.ofScalar scalar = .ok literal ∧
            template = .literal literal) := by
  have hscalar : value ≠ .null → (ofJson value = ⟨warnings, .ok template⟩ ↔
      warnings = [] ∧ ∃ scalar literal, value = scalar.toJson ∧ Literal.ofScalar scalar = .ok literal ∧
        template = .literal literal) := by
    intro hnull
    have hliteral : ofJson value = Decoding.ofExcept (literalOfJson value) := by
      cases value with
      | null => exact absurd rfl hnull
      | array items => cases hvalue
      | object members => cases hvalue
      | _ => rw [ofJson] <;> intros <;> contradiction
    rw [hliteral, Decoding.ofExcept_eq_ok_iff]
    refine and_congr_right fun _ => ?_
    rw [literalOfJson, bind_eq_ok_iff]
    constructor
    · rintro ⟨scalar, hscalar, h⟩
      obtain ⟨literal, hliteral, h⟩ := (bind_eq_ok_iff _ _ _).mp h
      cases h
      refine ⟨scalar, literal, ?_, hliteral, rfl⟩
      rw [← Scalar.ofJson_eq_ok_iff]
      cases hof : Scalar.ofJson value with
      | error e => rw [hof] at hscalar; cases hscalar
      | ok s => rw [hof] at hscalar; cases hscalar; rfl
    · rintro ⟨scalar, literal, rfl, hliteral, rfl⟩
      refine ⟨scalar, by rw [Scalar.ofJson_toJson]; rfl, ?_⟩
      rw [hliteral]
      rfl
  by_cases hnull : value = .null
  · subst hnull
    have hnone : ∀ scalar : Scalar, Json.null ≠ scalar.toJson := by
      intro scalar h
      cases scalar <;> cases h
    rw [ofJson, Decoding.pure_eq_ok_iff]
    simp [hnone, eq_comm]
  · rw [hscalar hnull]
    simp [hnull]

theorem ofJson_array_iff (items : List Json) (warnings : List Warning) (template : Template) :
    ofJson (.array items) = ⟨warnings, .ok template⟩ ↔
      ∃ parts, ofItems items = ⟨warnings, .ok parts⟩ ∧ .concat parts = template := by
  rw [ofJson_array, Decoding.bind_pure_eq_ok_iff]

theorem ofItems_cons_iff (value : Json) (rest : List Json) (warnings : List Warning) (parts : List Template) :
    ofItems (value :: rest) = ⟨warnings, .ok parts⟩ ↔
      ∃ first before others after, ofJson value = ⟨before, .ok first⟩ ∧ ofItems rest = ⟨after, .ok others⟩ ∧
        first :: others = parts ∧ warnings = before ++ after := by
  rw [ofItems_cons, Decoding.bind_bind_pure_eq_ok_iff]

theorem ofEntries_cons_iff (name : String) (value : Json) (rest : Members) (warnings : List Warning)
    (entries : List (String × Template)) :
    ofEntries ((name, value) :: rest) = ⟨warnings, .ok entries⟩ ↔
      ∃ first before others after, ofJson value = ⟨before, .ok first⟩ ∧ ofEntries rest = ⟨after, .ok others⟩ ∧
        (name, first) :: others = entries ∧ warnings = before ++ after := by
  rw [ofEntries_cons, Decoding.bind_bind_pure_eq_ok_iff]

/-! ## Canonical templates -/

/-- A template whose literals are those of their sources, whose keys are read from their own text, and whose tables have
a template for the empty name. -/
inductive Canonical : Template → Prop
  | default : Canonical .default
  | literal {literal : Literal} (h : Literal.ofScalar literal.source = .ok literal) : Canonical (.literal literal)
  | concat {parts : List Template} (h : ∀ part ∈ parts, Canonical part) : Canonical (.concat parts)
  | table {key : Path} {entries : List (String × Template)} (hback : ReadBack key)
      (hdefault : Members.has "" entries = true) (h : ∀ entry ∈ entries, Canonical entry.2) :
      Canonical (.table key entries)
  | forEach {key : Option Path} {template : Template} {separator : String} (hback : ∀ k ∈ key, ReadBack k)
      (h : Canonical template) : Canonical (.forEach key template separator)
  | ifKey {key : Path} {template : Template} (hback : ReadBack key) (h : Canonical template) :
      Canonical (.ifKey key template)
  | byType {key : Path} {value array object : Template} (hback : ReadBack key) (hvalue : Canonical value)
      (harray : Canonical array) (hobject : Canonical object) : Canonical (.byType key value array object)

theorem canonical_of_ofItems {items : List Json}
    (hitems : ∀ value ∈ items, ∀ warnings template, ofJson value = ⟨warnings, .ok template⟩ → Canonical template)
    {warnings : List Warning} {parts : List Template} (h : ofItems items = ⟨warnings, .ok parts⟩) :
    ∀ part ∈ parts, Canonical part := by
  induction items generalizing warnings parts with
  | nil =>
      cases h
      simp
  | cons value rest ih =>
      obtain ⟨hvalue, hrest⟩ := List.forall_mem_cons.mp hitems
      obtain ⟨first, before, others, after, hfirst, hothers, rfl, rfl⟩ := (ofItems_cons_iff _ _ _ _).mp h
      exact List.forall_mem_cons.mpr ⟨hvalue _ _ hfirst, ih hrest hothers⟩

theorem canonical_of_ofEntries {written : Members}
    (hwritten : ∀ entry ∈ written, ∀ warnings template, ofJson entry.2 = ⟨warnings, .ok template⟩ →
      Canonical template)
    {warnings : List Warning} {entries : List (String × Template)} (h : ofEntries written = ⟨warnings, .ok entries⟩) :
    ∀ entry ∈ entries, Canonical entry.2 := by
  induction written generalizing warnings entries with
  | nil =>
      cases h
      simp
  | cons entry rest ih =>
      obtain ⟨hentry, hrest⟩ := List.forall_mem_cons.mp hwritten
      obtain ⟨first, before, others, after, hfirst, hothers, rfl, rfl⟩ := (ofEntries_cons_iff _ _ _ _ _).mp h
      exact List.forall_mem_cons.mpr ⟨hentry _ _ hfirst, ih hrest hothers⟩

/-- A table has a template for every name that is written, and for no other. -/
theorem names_of_ofEntries {written : Members} {warnings : List Warning} {entries : List (String × Template)}
    (h : ofEntries written = ⟨warnings, .ok entries⟩) : Members.names entries = Members.names written := by
  induction written generalizing warnings entries with
  | nil =>
      cases h
      rfl
  | cons entry rest ih =>
      obtain ⟨first, before, others, after, -, hothers, rfl, rfl⟩ := (ofEntries_cons_iff _ _ _ _ _).mp h
      rw [Members.names_cons, Members.names_cons, ih hothers]

/-- Only canonical templates are decoded. -/
theorem canonical_of_ofJson {value : Json} {warnings : List Warning} {template : Template}
    (h : ofJson value = ⟨warnings, .ok template⟩) : Canonical template := by
  induction value using Json.induction_on_parts generalizing warnings template with
  | step value ih =>
      cases value with
      | array items =>
          obtain ⟨parts, hparts, rfl⟩ := (ofJson_array_iff _ _ _).mp h
          exact Canonical.concat (canonical_of_ofItems (fun v hv _ _ => ih v (.single (.item hv))) hparts)
      | object members =>
          have hmember : ∀ {name v}, Members.get? name members = some v → ∀ {w t}, ofJson v = ⟨w, .ok t⟩ →
              Canonical t :=
            fun hv => ih _ (.single (.member (Members.mem_of_get? hv)))
          obtain ⟨signature, -, inside, hreads, -⟩ := (ofJson_object_iff _ _ _).mp h
          cases hreads with
          | @table key written _ entries hkey hback htable hdefault hentries =>
              have hentry := canonical_of_ofEntries (fun entry hentry _ _ =>
                ih entry.2 (.tail (.single (.member hentry)) (.member (Members.mem_of_get? htable)))) hentries
              refine Canonical.table hback ?_ hentry
              rwa [Members.has_iff, names_of_ofEntries hentries, ← Members.has_iff]
          | forEach hkey hback hseparator hvalue hinner => exact Canonical.forEach hback (hmember hvalue hinner)
          | ifKey hkey hback hvalue hinner => exact Canonical.ifKey hback (hmember hvalue hinner)
          | byType hkey hback hvalue h₁ harray h₂ hobject h₃ =>
              exact Canonical.byType hback (hmember hvalue h₁) (hmember harray h₂) (hmember hobject h₃)
      | _ =>
          obtain ⟨-, ⟨-, rfl⟩ | ⟨scalar, literal, -, hliteral, rfl⟩⟩ := (ofJson_leaf_iff rfl _ _).mp h
          · exact Canonical.default
          · refine Canonical.literal ?_
            rwa [source_of_ofScalar hliteral]

theorem ofItems_toItems {parts : List Template} (h : ∀ part ∈ parts, ofJson part.toJson = ⟨[], .ok part⟩) :
    ofItems (toItems parts) = ⟨[], .ok parts⟩ := by
  induction parts with
  | nil => rfl
  | cons part rest ih =>
      obtain ⟨hpart, hrest⟩ := List.forall_mem_cons.mp h
      rw [toItems, ofItems_cons_iff]
      exact ⟨part, [], rest, [], hpart, ih hrest, rfl, rfl⟩

theorem ofEntries_toEntries {entries : List (String × Template)}
    (h : ∀ entry ∈ entries, ofJson entry.2.toJson = ⟨[], .ok entry.2⟩) :
    ofEntries (toEntries entries) = ⟨[], .ok entries⟩ := by
  induction entries with
  | nil => rfl
  | cons entry rest ih =>
      obtain ⟨hentry, hrest⟩ := List.forall_mem_cons.mp h
      rw [toEntries, ofEntries_cons_iff]
      exact ⟨entry.2, [], rest, [], hentry, ih hrest, rfl, rfl⟩

theorem names_toEntries (entries : List (String × Template)) :
    Members.names (toEntries entries) = Members.names entries := by
  induction entries with
  | nil => rfl
  | cons entry rest ih => rw [toEntries, Members.names_cons, Members.names_cons, ih]

/-- A canonical template is decoded from its own value, without warnings. -/
theorem ofJson_toJson {template : Template} (h : Canonical template) :
    ofJson template.toJson = ⟨[], .ok template⟩ := by
  induction h with
  | default => rfl
  | literal h =>
      rename_i literal
      rw [toJson, ofJson_leaf_iff (Json.isLeaf_toJson _)]
      exact ⟨rfl, Or.inr ⟨literal.source, literal, rfl, h, rfl⟩⟩
  | concat _ ih =>
      rw [toJson, ofJson_array_iff]
      exact ⟨_, ofItems_toItems ih, rfl⟩
  | table hback hdefault _ ih =>
      rw [toJson, ofJson_object_iff]
      refine ⟨.table, rfl, [], Reads.table rfl hback rfl ?_ (ofEntries_toEntries ih), rfl⟩
      rwa [Members.has_iff, names_toEntries, ← Members.has_iff]
  | @forEach key template separator hback _ ih =>
      rw [toJson, ofJson_object_iff]
      by_cases hseparator : separator = ""
      · subst hseparator
        exact ⟨.forEach, rfl, [], Reads.forEach rfl hback (Or.inr ⟨rfl, rfl⟩) rfl ih, rfl⟩
      · rw [separatorMembers, if_neg hseparator]
        exact ⟨.forEach, rfl, [], Reads.forEach rfl hback (Or.inl rfl) rfl ih, rfl⟩
  | ifKey hback _ ih =>
      rw [toJson, ofJson_object_iff]
      exact ⟨.ifKey, rfl, [], Reads.ifKey rfl hback rfl ih, rfl⟩
  | byType hback _ _ _ ihvalue iharray ihobject =>
      rw [toJson, ofJson_object_iff]
      exact ⟨.byType, rfl, [], Reads.byType rfl hback rfl ihvalue rfl iharray rfl ihobject, rfl⟩

end Template
end RecordSearch
