import RecordSearch.Proofs.Json.Alike
import RecordSearch.Proofs.Template.Decoding
import Mathlib.Algebra.BigOperators.Group.List.Basic
import Mathlib.Algebra.GroupWithZero.Nat

/-!
# The normal form of written templates

A written template may have members that are passed over.  Its normal form leaves them out, at every place where a
template stands, and so leaves out a separator that is empty.

* `norm`: the normal form; `removed`: how many members it leaves out because their kind has no use for them.
* `Normalized`, `normalized_of_ofJson`: what holds of every decoding that succeeds, by induction on the parts of the
  value.
* `ofJson_normal_form`: decoding and encoding are inverse up to the normal form, and every member left out is warned of.
-/

namespace RecordSearch
namespace Template

/-- What stands under a name in an object of some kind. -/
inductive Place where
  | template
  | entries
  | plain
  | unused
deriving DecidableEq

namespace Signature

/-- The members of a kind whose values write templates. -/
def templates : Signature → List String
  | table => []
  | forEach | ifKey => ["display_string"]
  | byType => ["json_value", "json_array", "json_object"]

/-- What stands under a name; the members that are neither required nor permitted are unused. -/
def place (signature : Signature) (name : String) : Place :=
  if name ∈ signature.required ∨ name ∈ signature.permitted then
    if name ∈ signature.templates then .template
    else if signature = .table ∧ name = "table" then .entries
    else .plain
  else .unused

end Signature

/-- The member is a separator that is empty. -/
def isEmptySeparator (name : String) : Json → Bool
  | .string text => name = "separator" && text = ""
  | _ => false

mutual

/-- The normal form of a written template. -/
def norm : Json → Json
  | .array items => .array (normItems items)
  | .object members =>
      match Signature.ofMembers? members with
      | some signature => .object (normMembers signature members)
      | none => .object members
  | value => value

/-- The normal forms of items. -/
def normItems : List Json → List Json
  | [] => []
  | value :: rest => norm value :: normItems rest

/-- The members that an object of some kind keeps. -/
def normMembers (signature : Signature) : List (String × Json) → Members
  | [] => []
  | (name, value) :: rest =>
      match signature.place name with
      | .template => (name, norm value) :: normMembers signature rest
      | .entries =>
          match value with
          | .object entries => (name, .object (normEntries entries)) :: normMembers signature rest
          | other => (name, other) :: normMembers signature rest
      | .plain =>
          if isEmptySeparator name value then normMembers signature rest
          else (name, value) :: normMembers signature rest
      | .unused => normMembers signature rest

/-- The normal forms of the entries of a table. -/
def normEntries : List (String × Json) → Members
  | [] => []
  | (name, value) :: rest => (name, norm value) :: normEntries rest

end

mutual

/-- The number of members that the normal form leaves out because the kind of their object has no use for them. -/
def removed : Json → Nat
  | .array items => removedItems items
  | .object members =>
      match Signature.ofMembers? members with
      | some signature => removedMembers signature members
      | none => 0
  | _ => 0

/-- The number of members left out in items. -/
def removedItems : List Json → Nat
  | [] => 0
  | value :: rest => removed value + removedItems rest

/-- The number of members left out of an object of some kind, and inside the members that it keeps. -/
def removedMembers (signature : Signature) : List (String × Json) → Nat
  | [] => 0
  | (name, value) :: rest =>
      match signature.place name with
      | .template => removed value + removedMembers signature rest
      | .entries =>
          match value with
          | .object entries => removedEntries entries + removedMembers signature rest
          | _ => removedMembers signature rest
      | .plain => removedMembers signature rest
      | .unused => removedMembers signature rest + 1

/-- The number of members left out in the entries of a table. -/
def removedEntries : List (String × Json) → Nat
  | [] => 0
  | (_, value) :: rest => removed value + removedEntries rest

end

/-! ## Members by name -/

/-- What an object of some kind keeps of a member. -/
def kept (signature : Signature) (name : String) (value : Json) : Option Json :=
  match signature.place name with
  | .template => some (norm value)
  | .entries =>
      match value with
      | .object entries => some (.object (normEntries entries))
      | other => some other
  | .plain => if isEmptySeparator name value then none else some value
  | .unused => none

/-- How many members are left out inside a member that is kept. -/
def removedInside (signature : Signature) (name : String) (value : Json) : Nat :=
  match signature.place name with
  | .template => removed value
  | .entries =>
      match value with
      | .object entries => removedEntries entries
      | _ => 0
  | _ => 0

theorem normMembers_cons (signature : Signature) (name : String) (value : Json) (rest : Members) :
    normMembers signature ((name, value) :: rest) =
      ((kept signature name value).map fun v => (name, v)).toList ++ normMembers signature rest := by
  cases hplace : signature.place name with
  | template => cases value <;> simp [normMembers, kept, hplace]
  | entries => cases value <;> simp [normMembers, kept, hplace]
  | plain =>
      by_cases hempty : isEmptySeparator name value = true
      · cases value <;> simp [normMembers, kept, hplace, hempty]
      · cases value <;> simp [normMembers, kept, hplace, hempty]
  | unused => cases value <;> simp [normMembers, kept, hplace]

theorem names_normMembers_sublist (signature : Signature) (members : Members) :
    (Members.names (normMembers signature members)).Sublist (Members.names members) := by
  induction members with
  | nil => exact List.Sublist.refl _
  | cons m rest ih =>
      obtain ⟨name, value⟩ := m
      rw [normMembers_cons]
      cases kept signature name value with
      | none => exact List.Sublist.cons _ ih
      | some v => exact List.Sublist.cons_cons _ ih

/-- The member of a name is what is kept of the member of that name. -/
theorem get?_normMembers (signature : Signature) (members : Members) (hnodup : (Members.names members).Nodup)
    (name : String) :
    Members.get? name (normMembers signature members) =
      (Members.get? name members).bind (kept signature name) := by
  induction members with
  | nil => rfl
  | cons m rest ih =>
      obtain ⟨n, value⟩ := m
      obtain ⟨hn, hrest⟩ := List.nodup_cons.mp hnodup
      rw [normMembers_cons, Members.get?_append, ih hrest]
      by_cases hname : n = name
      · subst hname
        have hnone : Members.get? n rest = none := (Members.get?_eq_none_iff n rest).mpr hn
        rw [hnone]
        cases hkept : kept signature n value <;> simp [Members.get?_cons, hkept]
      · cases kept signature n value <;> simp [Members.get?_cons, hname]

theorem place_eq_unused_iff (signature : Signature) (name : String) :
    signature.place name = .unused ↔ name ∉ signature.required ∧ name ∉ signature.permitted := by
  rw [Signature.place, ← not_or]
  split
  · rename_i hused
    refine iff_of_false ?_ (not_not_intro hused)
    split
    · exact nofun
    · split <;> exact nofun
  · rename_i hunused
    exact iff_of_true rfl hunused

theorem removedMembers_cons (signature : Signature) (name : String) (value : Json) (rest : Members) :
    removedMembers signature ((name, value) :: rest) =
      (if signature.place name = .unused then 1 else 0) + removedInside signature name value +
        removedMembers signature rest := by
  cases hplace : signature.place name with
  | template => cases value <;> simp [removedMembers, removedInside, hplace]
  | entries => cases value <;> simp [removedMembers, removedInside, hplace]
  | plain => cases value <;> simp [removedMembers, removedInside, hplace]
  | unused => cases value <;> simp [removedMembers, removedInside, hplace, Nat.add_comm]

/-- What is left out of an object are the members that its kind has no use for, and what is left out inside the other
members. -/
theorem removedMembers_eq (signature : Signature) (members : Members) :
    removedMembers signature members =
      (signature.unusedNames members).length + (members.map fun m => removedInside signature m.1 m.2).sum := by
  induction members with
  | nil => rfl
  | cons m rest ih =>
      obtain ⟨name, value⟩ := m
      have hunused : (signature.unusedNames ((name, value) :: rest)).length =
          (if signature.place name = .unused then 1 else 0) + (signature.unusedNames rest).length := by
        by_cases h : signature.place name = .unused
        · have hkeep := (place_eq_unused_iff signature name).mp h
          simp [Signature.unusedNames, h, hkeep, Nat.add_comm]
        · have hdrop := mt (place_eq_unused_iff signature name).mpr h
          simp only [not_and_or, not_not] at hdrop
          rcases hdrop with hdrop | hdrop <;> simp [Signature.unusedNames, h, hdrop]
      rw [removedMembers_cons, ih, hunused, List.map_cons, List.sum_cons]
      dsimp only
      omega

/-- A sum over members to which only some names contribute, name by name. -/
theorem sum_members (f : String → Json → Nat) (names : List String) (hnames : names.Nodup)
    (hf : ∀ name value, name ∉ names → f name value = 0) (members : Members)
    (hmembers : (Members.names members).Nodup) :
    (members.map fun m => f m.1 m.2).sum =
      (names.map fun name => ((Members.get? name members).map (f name)).getD 0).sum := by
  induction members with
  | nil => simp
  | cons m rest ih =>
      obtain ⟨n, value⟩ := m
      obtain ⟨hn, hrest⟩ := List.nodup_cons.mp hmembers
      have hnone : Members.get? n rest = none := (Members.get?_eq_none_iff n rest).mpr hn
      have hsplit : ∀ name, ((Members.get? name ((n, value) :: rest)).map (f name)).getD 0 =
          (if name = n then f n value else 0) + ((Members.get? name rest).map (f name)).getD 0 := by
        intro name
        by_cases hname : n = name
        · subst hname
          simp [Members.get?_cons, hnone]
        · simp [Members.get?_cons, hname, Ne.symm hname]
      rw [List.map_cons, List.sum_cons, ih hrest, List.map_congr_left fun name _ => hsplit name, List.sum_map_add]
      congr 1
      rw [List.sum_map_eq_nsmul_single n _ fun name hname _ => if_neg hname, if_pos rfl]
      by_cases hmem : n ∈ names
      · rw [List.count_eq_one_of_mem hnames hmem, one_nsmul]
      · rw [hf n value hmem, nsmul_zero]

/-! ## Single members -/

section Members

variable {signature : Signature} {name : String}

theorem kept_template (hplace : signature.place name = .template) (value : Json) :
    kept signature name value = some (norm value) := by
  unfold kept
  rw [hplace]

theorem kept_text (hplace : signature.place name = .plain) (text : String) :
    kept signature name (.string text) = if name = "separator" ∧ text = "" then none else some (.string text) := by
  unfold kept
  rw [hplace]
  simp [isEmptySeparator]

theorem kept_null (hplace : signature.place name = .plain) : kept signature name .null = some .null := by
  unfold kept
  rw [hplace]
  rfl

theorem kept_unused (hrequired : name ∉ signature.required) (hpermitted : name ∉ signature.permitted)
    (members : Members) : (Members.get? name members).bind (kept signature name) = none := by
  have hplace := (place_eq_unused_iff signature name).mpr ⟨hrequired, hpermitted⟩
  cases Members.get? name members with
  | none => rfl
  | some value =>
      rw [Option.bind_some]
      unfold kept
      rw [hplace]

theorem kept_entries (hplace : signature.place name = .entries) (entries : Members) :
    kept signature name (.object entries) = some (.object (normEntries entries)) := by
  unfold kept
  rw [hplace]

theorem removedInside_template (hplace : signature.place name = .template) (value : Json) :
    removedInside signature name value = removed value := by
  unfold removedInside
  rw [hplace]

theorem removedInside_plain (hplace : signature.place name = .plain) (value : Json) :
    removedInside signature name value = 0 := by
  unfold removedInside
  rw [hplace]

theorem removedInside_entries (hplace : signature.place name = .entries) (entries : Members) :
    removedInside signature name (.object entries) = removedEntries entries := by
  unfold removedInside
  rw [hplace]

/-- Templates stand only under required names. -/
theorem removedInside_of_not_required (hname : name ∉ signature.required) (value : Json) :
    removedInside signature name value = 0 := by
  have hplace : signature.place name = .plain ∨ signature.place name = .unused := by
    have htemplates : name ∉ signature.templates := by
      intro h
      cases signature <;> simp_all [Signature.templates, Signature.required]
    have htable : ¬ (signature = .table ∧ name = "table") := by
      rintro ⟨rfl, rfl⟩
      exact hname (by decide)
    rw [Signature.place, if_neg htemplates, if_neg htable]
    split
    · exact Or.inl rfl
    · exact Or.inr rfl
  unfold removedInside
  rcases hplace with h | h <;> rw [h]

end Members

theorem removed_object {signature : Signature} {members : Members}
    (hsignature : Signature.ofMembers? members = some signature) (hmembers : (Members.names members).Nodup) :
    removed (.object members) = (signature.unusedNames members).length +
      (signature.required.map fun name =>
        ((Members.get? name members).map (removedInside signature name)).getD 0).sum := by
  have hrequired : signature.required.Nodup := by
    cases signature <;> decide
  simp only [removed, hsignature]
  rw [removedMembers_eq,
    sum_members (removedInside signature) signature.required hrequired
      (fun name value h => removedInside_of_not_required h value) members hmembers]

/-- An object that has what is kept, under the same names, is alike to the normal form. -/
theorem alike_norm_object {signature : Signature} {members written : Members}
    (hsignature : Signature.ofMembers? members = some signature) (hmembers : (Members.names members).Nodup)
    (hwritten : (Members.names written).Nodup)
    (hkept : ∀ m ∈ written, ∃ value,
      (Members.get? m.1 members).bind (kept signature m.1) = some value ∧ Json.Alike m.2 value)
    (hnone : ∀ name, name ∉ Members.names written → (Members.get? name members).bind (kept signature name) = none) :
    Json.Alike (.object written) (norm (.object members)) := by
  simp only [norm, hsignature]
  refine Json.alike_object_of_get? hwritten ((names_normMembers_sublist signature members).nodup hmembers) ?_
  intro name
  rw [get?_normMembers signature members hmembers]
  cases hget : Members.get? name written with
  | none =>
      rw [hnone name ((Members.get?_eq_none_iff name written).mp hget)]
      exact Option.Rel.none
  | some v =>
      obtain ⟨value, hvalue, halike⟩ := hkept (name, v) (Members.mem_of_get? hget)
      rw [hvalue]
      exact Option.Rel.some halike

/-! ## Decoding and the normal form -/

/-- What holds of a decoding that succeeds. -/
structure Normalized (value : Json) (warnings : List Warning) (template : Template) : Prop where
  canonical : Canonical template
  alike : Json.Alike template.toJson (norm value)
  unused : ∀ warning ∈ warnings, ∃ name, warning = .unusedInTemplate name
  length : warnings.length = removed value

section Parts

theorem normalized_leaf {value : Json} (hvalue : value.isLeaf = true) {warnings : List Warning} {template : Template}
    (h : ofJson value = ⟨warnings, .ok template⟩) : Normalized value warnings template := by
  obtain ⟨rfl, hcases⟩ := (ofJson_leaf_iff hvalue warnings template).mp h
  have hnorm : norm value = value := by
    cases value <;> first | rfl | cases hvalue
  have hremoved : removed value = 0 := by
    cases value <;> first | rfl | cases hvalue
  have htoJson : template.toJson = value := by
    rcases hcases with ⟨rfl, rfl⟩ | ⟨scalar, literal, rfl, hliteral, rfl⟩
    · rfl
    · rw [toJson, source_of_ofScalar hliteral]
  refine ⟨canonical_of_ofJson h, ?_, by simp, by simp [hremoved]⟩
  rw [htoJson, hnorm]
  exact Json.Alike.leaf hvalue

/-- What holds of the items holds of all of them together. -/
theorem normalized_items {items : List Json}
    (hitems : ∀ value ∈ items, ∀ warnings template, ofJson value = ⟨warnings, .ok template⟩ →
      Normalized value warnings template)
    {warnings : List Warning} {parts : List Template} (h : ofItems items = ⟨warnings, .ok parts⟩) :
    List.Forall₂ Json.Alike (toItems parts) (normItems items) ∧
      (∀ warning ∈ warnings, ∃ name, warning = .unusedInTemplate name) ∧ warnings.length = removedItems items := by
  induction items generalizing warnings parts with
  | nil =>
      cases h
      exact ⟨List.Forall₂.nil, by simp, rfl⟩
  | cons value rest ih =>
      obtain ⟨hvalue, hrest⟩ := List.forall_mem_cons.mp hitems
      obtain ⟨first, before, others, after, hfirst, hothers, rfl, rfl⟩ := (ofItems_cons_iff _ _ _ _).mp h
      obtain ⟨-, halike, hunused, hlength⟩ := hvalue _ _ hfirst
      obtain ⟨halikes, hunuseds, hlengths⟩ := ih hrest hothers
      refine ⟨List.Forall₂.cons halike halikes, List.forall_mem_append.mpr ⟨hunused, hunuseds⟩, ?_⟩
      rw [List.length_append, hlength, hlengths, removedItems]

/-- What holds of the entries of a table holds of all of them together. -/
theorem normalized_entries {written : Members}
    (hwritten : ∀ entry ∈ written, ∀ warnings template, ofJson entry.2 = ⟨warnings, .ok template⟩ →
      Normalized entry.2 warnings template)
    {warnings : List Warning} {entries : List (String × Template)}
    (h : ofEntries written = ⟨warnings, .ok entries⟩) :
    (∀ name, Option.Rel Json.Alike (Members.get? name (toEntries entries))
        (Members.get? name (normEntries written))) ∧
      (∀ warning ∈ warnings, ∃ name, warning = .unusedInTemplate name) ∧
      warnings.length = removedEntries written := by
  induction written generalizing warnings entries with
  | nil =>
      cases h
      exact ⟨fun _ => Option.Rel.none, by simp, rfl⟩
  | cons entry rest ih =>
      obtain ⟨n, value⟩ := entry
      obtain ⟨hvalue, hrest⟩ := List.forall_mem_cons.mp hwritten
      obtain ⟨first, before, others, after, hfirst, hothers, rfl, rfl⟩ := (ofEntries_cons_iff _ _ _ _ _).mp h
      obtain ⟨-, halike, hunused, hlength⟩ := hvalue _ _ hfirst
      obtain ⟨halikes, hunuseds, hlengths⟩ := ih hrest hothers
      refine ⟨?_, List.forall_mem_append.mpr ⟨hunused, hunuseds⟩, ?_⟩
      · intro name
        rw [toEntries, normEntries, Members.get?_cons, Members.get?_cons]
        split
        · exact Option.Rel.some halike
        · exact halikes name
      · rw [List.length_append, hlength, hlengths, removedEntries]

theorem names_normEntries (entries : Members) : Members.names (normEntries entries) = Members.names entries := by
  induction entries with
  | nil => rfl
  | cons entry rest ih =>
      obtain ⟨name, value⟩ := entry
      rw [normEntries, Members.names_cons, Members.names_cons, ih]

end Parts

section Kinds

variable {members : Members} (hmembers : (Members.names members).Nodup)
include hmembers

/-- The warnings of an object are those of its own members, and those of the templates inside. -/
theorem normalized_object {signature : Signature} (hsignature : Signature.ofMembers? members = some signature)
    {inside : List Warning} {template : Template} (hcanonical : Canonical template)
    (halike : Json.Alike template.toJson (norm (.object members)))
    (hunused : ∀ warning ∈ inside, ∃ name, warning = .unusedInTemplate name)
    (hlength : inside.length = (signature.required.map fun name =>
      ((Members.get? name members).map (removedInside signature name)).getD 0).sum) :
    Normalized (.object members) ((signature.unusedNames members).map .unusedInTemplate ++ inside) template := by
  refine ⟨hcanonical, halike, List.forall_mem_append.mpr ⟨?_, hunused⟩, ?_⟩
  · intro warning hwarning
    obtain ⟨name, -, rfl⟩ := List.mem_map.mp hwarning
    exact ⟨name, rfl⟩
  · rw [List.length_append, List.length_map, hlength, removed_object hsignature hmembers]

theorem normalized_table (hsignature : Signature.ofMembers? members = some .table) {key : Path} {written : Members}
    {inside : List Warning} {entries : List (String × Template)} (hcanonical : Canonical (.table key entries))
    (hkey : Members.get? "key" members = some (keyJson key))
    (htable : Members.get? "table" members = some (.object written))
    (hnodup : (Members.names written).Nodup)
    (hwritten : ∀ entry ∈ written, ∀ warnings template, ofJson entry.2 = ⟨warnings, .ok template⟩ →
      Normalized entry.2 warnings template)
    (h : ofEntries written = ⟨inside, .ok entries⟩) :
    Normalized (.object members) ((Signature.table.unusedNames members).map .unusedInTemplate ++ inside)
      (.table key entries) := by
  have hplace : Signature.table.place "key" = .plain := by decide
  have hplace' : Signature.table.place "table" = .entries := by decide
  obtain ⟨halike, hunused, hlength⟩ := normalized_entries hwritten h
  refine normalized_object hmembers hsignature hcanonical ?_ hunused ?_
  · refine alike_norm_object hsignature hmembers (by simp [Members.names]) ?_ ?_
    · simp only [List.forall_mem_cons, hkey, htable, Option.bind_some, kept_entries hplace']
      refine ⟨⟨_, kept_text hplace _, Json.Alike.leaf rfl⟩, ⟨_, rfl, ?_⟩, by simp⟩
      refine Json.alike_object_of_get? ?_ ?_ halike
      · rwa [names_toEntries, names_of_ofEntries h]
      · rwa [names_normEntries]
    · intro name hname
      exact kept_unused (by simpa [Signature.required] using hname) (by simp [Signature.permitted]) members
  · simp [Signature.required, hkey, htable, removedInside_plain hplace, removedInside_entries hplace', hlength]

theorem normalized_forEach (hsignature : Signature.ofMembers? members = some .forEach) {key : Option Path}
    {value : Json} {separator : String} {inside : List Warning} {inner : Template}
    (hcanonical : Canonical (.forEach key inner separator))
    (hkey : Members.get? "forall" members = some ((key.map keyJson).getD .null))
    (hseparator : Members.get? "separator" members = some (.string separator) ∨
      Members.get? "separator" members = none ∧ separator = "")
    (hvalue : Members.get? "display_string" members = some value) (hinner : Normalized value inside inner) :
    Normalized (.object members) ((Signature.forEach.unusedNames members).map .unusedInTemplate ++ inside)
      (.forEach key inner separator) := by
  have hplace : Signature.forEach.place "forall" = .plain := by decide
  have hplace' : Signature.forEach.place "display_string" = .template := by decide
  have hplace'' : Signature.forEach.place "separator" = .plain := by decide
  have hkeptKey : kept .forEach "forall" ((key.map keyJson).getD .null) = some ((key.map keyJson).getD .null) ∧
      ((key.map keyJson).getD .null).isLeaf = true := by
    cases key with
    | none => exact ⟨kept_null hplace, rfl⟩
    | some key => exact ⟨kept_text hplace _, rfl⟩
  have hkeptSeparator : (Members.get? "separator" members).bind (kept .forEach "separator") =
      if separator = "" then none else some (.string separator) := by
    rcases hseparator with h | ⟨h, rfl⟩
    · rw [h, Option.bind_some, kept_text hplace'']
      simp
    · rw [h]
      rfl
  refine normalized_object hmembers hsignature hcanonical ?_ hinner.unused ?_
  · refine alike_norm_object hsignature hmembers ?_ ?_ ?_
    · rw [separatorMembers]
      split <;> simp [Members.names]
    · have hkept : ∀ m ∈ separatorMembers separator, ∃ v,
          (Members.get? m.1 members).bind (kept .forEach m.1) = some v ∧ Json.Alike m.2 v := by
        rw [separatorMembers]
        split
        · simp
        · rename_i hne
          simp only [List.forall_mem_cons, hkeptSeparator, if_neg hne]
          exact ⟨⟨_, rfl, Json.Alike.leaf rfl⟩, by simp⟩
      simp only [List.forall_mem_cons, hkey, hvalue, Option.bind_some, kept_template hplace']
      exact ⟨⟨_, hkeptKey.1, Json.Alike.leaf hkeptKey.2⟩, ⟨_, rfl, hinner.alike⟩, hkept⟩
    · intro name hname
      by_cases hsep : name = "separator"
      · subst hsep
        rw [hkeptSeparator]
        by_cases hempty : separator = ""
        · rw [if_pos hempty]
        · simp [Members.names, separatorMembers, hempty] at hname
      · refine kept_unused ?_ ?_ members
        · intro h
          apply hname
          simp_all [Signature.required, Members.names]
        · simpa [Signature.permitted] using hsep
  · simp [Signature.required, hkey, hvalue, removedInside_plain hplace, removedInside_template hplace', hinner.length]

theorem normalized_ifKey (hsignature : Signature.ofMembers? members = some .ifKey) {key : Path} {value : Json}
    {inside : List Warning} {inner : Template} (hcanonical : Canonical (.ifKey key inner))
    (hkey : Members.get? "if_key" members = some (keyJson key))
    (hvalue : Members.get? "display_string" members = some value)
    (hinner : Normalized value inside inner) :
    Normalized (.object members) ((Signature.ifKey.unusedNames members).map .unusedInTemplate ++ inside)
      (.ifKey key inner) := by
  have hplace : Signature.ifKey.place "if_key" = .plain := by decide
  have hplace' : Signature.ifKey.place "display_string" = .template := by decide
  refine normalized_object hmembers hsignature hcanonical ?_ hinner.unused ?_
  · refine alike_norm_object hsignature hmembers (by simp [Members.names]) ?_ ?_
    · simp only [List.forall_mem_cons, hkey, hvalue, Option.bind_some, kept_template hplace']
      exact ⟨⟨_, kept_text hplace _, Json.Alike.leaf rfl⟩, ⟨_, rfl, hinner.alike⟩, by simp⟩
    · intro name hname
      exact kept_unused (by simpa [Signature.required] using hname) (by simp [Signature.permitted]) members
  · simp [Signature.required, hkey, hvalue, removedInside_plain hplace, removedInside_template hplace', hinner.length]

theorem normalized_byType (hsignature : Signature.ofMembers? members = some .byType) {key : Path}
    {v₁ v₂ v₃ : Json} {w₁ w₂ w₃ : List Warning} {t₁ t₂ t₃ : Template} (hcanonical : Canonical (.byType key t₁ t₂ t₃))
    (hkey : Members.get? "if_json_type" members = some (keyJson key))
    (hvalue : Members.get? "json_value" members = some v₁) (h₁ : Normalized v₁ w₁ t₁)
    (harray : Members.get? "json_array" members = some v₂) (h₂ : Normalized v₂ w₂ t₂)
    (hobject : Members.get? "json_object" members = some v₃) (h₃ : Normalized v₃ w₃ t₃) :
    Normalized (.object members)
      ((Signature.byType.unusedNames members).map .unusedInTemplate ++ (w₁ ++ w₂ ++ w₃)) (.byType key t₁ t₂ t₃) := by
  have hplace : Signature.byType.place "if_json_type" = .plain := by decide
  have hplace₁ : Signature.byType.place "json_value" = .template := by decide
  have hplace₂ : Signature.byType.place "json_array" = .template := by decide
  have hplace₃ : Signature.byType.place "json_object" = .template := by decide
  refine normalized_object hmembers hsignature hcanonical ?_ ?_ ?_
  · refine alike_norm_object hsignature hmembers (by simp [Members.names]) ?_ ?_
    · simp only [List.forall_mem_cons, hkey, hvalue, harray, hobject, Option.bind_some, kept_template hplace₁,
        kept_template hplace₂, kept_template hplace₃]
      exact ⟨⟨_, kept_text hplace _, Json.Alike.leaf rfl⟩, ⟨_, rfl, h₁.alike⟩, ⟨_, rfl, h₂.alike⟩,
        ⟨_, rfl, h₃.alike⟩, by simp⟩
    · intro name hname
      exact kept_unused (by simpa [Signature.required] using hname) (by simp [Signature.permitted]) members
  · exact List.forall_mem_append.mpr ⟨List.forall_mem_append.mpr ⟨h₁.unused, h₂.unused⟩, h₃.unused⟩
  · simp [Signature.required, hkey, hvalue, harray, hobject, removedInside_plain hplace,
      removedInside_template hplace₁, removedInside_template hplace₂, removedInside_template hplace₃, h₁.length,
      h₂.length, h₃.length]

end Kinds

/-- What holds of all decodings that succeed, by induction on the parts of the value: the entries of a table are not
children of their object, but parts of it. -/
theorem normalized_of_ofJson {value : Json} (hdistinct : value.Distinct) {warnings : List Warning}
    {template : Template} (h : ofJson value = ⟨warnings, .ok template⟩) : Normalized value warnings template := by
  induction value using Json.induction_on_parts generalizing warnings template with
  | step value ih =>
      cases value with
      | array items =>
          obtain ⟨parts, hparts, rfl⟩ := (ofJson_array_iff _ _ _).mp h
          have hitems := (Json.distinct_array items).mp hdistinct
          obtain ⟨halike, hunused, hlength⟩ := normalized_items
            (fun v hv _ _ => ih v (.single (.item hv)) (hitems v hv)) hparts
          exact ⟨canonical_of_ofJson h, Json.alike_array halike, hunused, hlength⟩
      | object members =>
          obtain ⟨hmembers, hvalues⟩ := (Json.distinct_object members).mp hdistinct
          have hmember : ∀ {name v}, Members.get? name members = some v → ∀ {w t}, ofJson v = ⟨w, .ok t⟩ →
              Normalized v w t := by
            intro name v hv w t
            have hmem := Members.mem_of_get? hv
            exact ih v (.single (.member hmem)) (hvalues _ hmem)
          have hcanonical := canonical_of_ofJson h
          obtain ⟨signature, hsignature, inside, hreads, rfl⟩ := (ofJson_object_iff _ _ _).mp h
          cases hreads with
          | @table key written _ entries hkey _ htable _ hentries =>
              have hmem := Members.mem_of_get? htable
              obtain ⟨hnodup, hwritten⟩ := (Json.distinct_object written).mp (hvalues _ hmem)
              refine normalized_table hmembers hsignature hcanonical hkey htable hnodup ?_ hentries
              intro entry hentry w t
              exact ih entry.2 (.tail (.single (.member hentry)) (.member hmem)) (hwritten entry hentry)
          | forEach hkey _ hseparator hvalue hinner =>
              exact normalized_forEach hmembers hsignature hcanonical hkey hseparator hvalue (hmember hvalue hinner)
          | ifKey hkey _ hvalue hinner =>
              exact normalized_ifKey hmembers hsignature hcanonical hkey hvalue (hmember hvalue hinner)
          | byType hkey _ hvalue h₁ harray h₂ hobject h₃ =>
              exact normalized_byType hmembers hsignature hcanonical hkey hvalue (hmember hvalue h₁) harray
                (hmember harray h₂) hobject (hmember hobject h₃)
      | _ => exact normalized_leaf rfl h

/-- A decoded template writes the normal form of its value, and is decoded again from what it writes, without
warnings; the decoding warned of exactly the members that the normal form leaves out because their kind has no use for
them. -/
theorem ofJson_normal_form (value : Json) (hdistinct : value.Distinct) (warnings : List Warning) (template : Template)
    (h : ofJson value = ⟨warnings, .ok template⟩) :
    Json.Alike template.toJson (norm value) ∧ ofJson template.toJson = ⟨[], .ok template⟩ ∧
      (∀ warning ∈ warnings, ∃ name, warning = .unusedInTemplate name) ∧ warnings.length = removed value := by
  obtain ⟨hcanonical, halike, hunused, hlength⟩ := normalized_of_ofJson hdistinct h
  exact ⟨halike, ofJson_toJson hcanonical, hunused, hlength⟩

/-- A table with a member too many, the entry of which is a repetition with an empty separator and another one. -/
theorem ofJson_normal_form_table :
    let value : Json := .object [("note", .null), ("table", .object [("", .object [("separator", .string ""),
      ("display_string", .string "x"), ("forall", .null), ("if_key", .bool true)])]), ("key", .string "a.b")]
    let template : Template := .table [.key "a", .key "b"]
      [("", .forEach none (.literal ⟨.str "x", [.text "x"]⟩) "")]
    Json.Alike template.toJson (norm value) ∧ ofJson template.toJson = ⟨[], .ok template⟩ ∧
      (∀ warning ∈ [Warning.unusedInTemplate "note", .unusedInTemplate "if_key"],
        ∃ name, warning = .unusedInTemplate name) ∧ 2 = removed value := by
  intro value template
  have hdistinct : value.Distinct := by
    simp only [value, Json.distinct_object, List.forall_mem_cons]
    have hleaf : ∀ v : Json, v.isLeaf = true → v.Distinct := fun _ => Json.distinct_leaf
    have hnone : ∀ m ∈ ([] : Members), m.2.Distinct := by simp
    exact ⟨by decide, hleaf _ rfl, ⟨by decide, ⟨by decide, hleaf _ rfl, hleaf _ rfl, hleaf _ rfl, hleaf _ rfl, hnone⟩,
      hnone⟩, hleaf _ rfl, hnone⟩
  exact ofJson_normal_form value hdistinct [.unusedInTemplate "note", .unusedInTemplate "if_key"] template (by rfl)

end Template
end RecordSearch
