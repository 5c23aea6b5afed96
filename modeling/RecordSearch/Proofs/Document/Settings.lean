import RecordSearch.Document.Criteria
import RecordSearch.Proofs.Field.Written
import RecordSearch.Proofs.Json.Branches
import RecordSearch.Proofs.Preferences

/-!
# Settings of written criteria

Written criteria leave out what they take for granted.  Whoever decodes them fills in the settings from the presentation
of the field, then from the preferences, and may write down the result in full.

* `Reads`: the criteria that a value writes, and where each of their settings comes from.
* `queryOfJson_eq_ok_iff`: a value is decoded exactly to what it reads as.
* `FieldQuery.refilled`: the query with other defaults, in the settings that a value leaves out.
* `FieldQuery.spelledOut`: the members that leave nothing out; `FieldKind.settingNames`: the members that a kind reads.
* `queryOfJson_spelledOut`: what is spelled out does not depend on defaults, and what is left out on nothing else.
-/

namespace RecordSearch

open Repetition Traversal

/-- The members that the criteria for a field of this kind may have. -/
def FieldKind.settingNames : FieldKind → List String
  | option _ false => ["value", "accept_missing", "invert"]
  | option _ true => ["values", "operator", "accept_missing", "invert"]
  | integer _ _ => ["value", "comparison", "accept_missing", "invert"]
  | text => ["values", "operator", "case", "accept_missing", "invert"]

/-- The members that write criteria in full. -/
def Criteria.spelledOut : Criteria → Members
  | single value => [("value", value.toJson)]
  | multi values operator =>
      [("values", .array (values.map Scalar.toJson)), ("operator", .string operator.name)]
  | integer value comparison => [("value", .int value), ("comparison", .string comparison.name)]
  | text values operator caseSensitive =>
      [("values", .array (values.map .string)), ("operator", .string operator.name), ("case", .bool caseSensitive)]

/-- The members that write a query for one field in full. -/
def FieldQuery.spelledOut (query : FieldQuery) : Members :=
  query.criteria.spelledOut ++ [("accept_missing", .bool query.acceptMissing), ("invert", .bool query.invert)]

namespace Presentation

/-- The member of written criteria of this name; a bare value has none. -/
def member? (name : String) : Json → Option Json
  | .object members => Members.get? name members
  | _ => none

/-- What criteria say in a setting, or the default if the value that writes them leaves it out. -/
def saidOr {α : Type} (name : String) (value : Json) (said default : α) : α :=
  match member? name value with
  | some _ => said
  | none => default

section Reading

variable {p : Presentation} {prefs : Preferences} {kind : FieldKind} {value : Json} {criteria : Criteria} {α : Type}
  {name : String} {expect : Json → Except Fault α}

theorem setting_of_none (h : member? name value = none) : setting name expect value = .ok none := by
  cases value with
  | object members =>
      rw [member?] at h
      simp only [setting, h]
  | null | bool _ | number _ | string _ | array _ => rfl

theorem setting_of_some {found : Json} (h : member? name value = some found) :
    setting name expect value =
      ((expect found).map some).mapError fun fault => .invalidCriteria (.badSetting name fault) := by
  cases value with
  | object members =>
      rw [member?] at h
      simp only [setting, h]
      cases expect found <;> rfl
  | null | bool _ | number _ | string _ | array _ => cases h

/-- A setting that is given holds whatever the default, and one that is left out is the default. -/
theorem saidOr_of_setting {given : Option α} (h : setting name expect value = .ok given) (default default' : α) :
    saidOr name value (given.getD default) default' = given.getD default' := by
  cases hmember : member? name value with
  | none =>
      rw [setting_of_none hmember] at h
      cases h
      rw [saidOr, hmember]
      rfl
  | some found =>
      rw [setting_of_some hmember, mapError_eq_ok_iff, map_eq_ok_iff] at h
      obtain ⟨a, _, rfl⟩ := h
      rw [saidOr, hmember]
      rfl

/-- The criteria that a value writes for a field of the given kind.  A setting that it leaves out is the one of the
presentation, then that of the preferences or a fixed one. -/
inductive Reads (p : Presentation) (prefs : Preferences) (value : Json) : FieldKind → Criteria → Prop
  | single (choices : List Scalar) {x : Scalar}
      (hvalue : operand "value" value = .ok x.toJson) :
      Reads p prefs value (.option choices false) (.single x)
  | multi (choices : List Scalar) {found : Json} {values : List Scalar} {operator : Option Operator}
      (hfound : operand "values" value = .ok found)
      (hvalues : selectionOfJson found = .ok values)
      (hoperator : setting "operator" Expect.operator value = .ok operator) :
      Reads p prefs value (.option choices true) (.multi values (operator.getD (p.operator.getD .or)))
  | integer (min max : Option Int64) {expected : Int64} {comparison : Option Comparison}
      (hvalue : operand "value" value = .ok (.int expected))
      (hcomparison : setting "comparison" Expect.comparison value = .ok comparison) :
      Reads p prefs value (.integer min max) (.integer expected (comparison.getD (p.comparison.getD .eq)))
  | text {found : Json} {values : List String} {operator : Option Operator} {caseSensitive : Option Bool}
      (hfound : operand "values" value = .ok found)
      (hvalues : partsOfJson found = .ok values)
      (hoperator : setting "operator" Expect.operator value = .ok operator)
      (hcase : setting "case" Expect.flag value = .ok caseSensitive) :
      Reads p prefs value .text (.text values (operator.getD (p.operator.getD .or))
        (caseSensitive.getD (p.caseSensitive.getD prefs.caseSensitive)))

theorem operatorFor_eq_ok_iff (operator : Operator) :
    p.operatorFor value = .ok operator ↔
      ∃ given, setting "operator" Expect.operator value = .ok given ∧
        operator = given.getD (p.operator.getD .or) := by
  rw [operatorFor, bind_eq_ok_iff]
  refine exists_congr fun given => and_congr_right fun _ => ?_
  rw [← Option.getD_or]
  constructor
  · intro h
    cases h
    rfl
  · intro h
    rw [h]
    rfl

theorem integerOfJson_eq_ok_iff (found : Json) (n : Int64) : integerOfJson found = .ok n ↔ found = .int n := by
  constructor
  · intro h
    rw [integerOfJson.eq_def] at h
    split at h
    · cases h
      rfl
    · cases h
  · intro h
    rw [h]
    rfl

theorem reads_of_criteriaOfJson (h : p.criteriaOfJson kind prefs value = .ok criteria) :
    Reads p prefs value kind criteria := by
  cases kind with
  | option choices multiSelection =>
      cases multiSelection with
      | false =>
          obtain ⟨found, hfound, h⟩ := (bind_eq_ok_iff _ _ _).mp h
          obtain ⟨x, hx, h⟩ := (bind_eq_ok_iff _ _ _).mp h
          cases h
          rw [mapError_eq_ok_iff, Scalar.ofJson_eq_ok_iff] at hx
          exact .single choices (hx ▸ hfound)
      | true =>
          obtain ⟨found, hfound, h⟩ := (bind_eq_ok_iff _ _ _).mp h
          obtain ⟨values, hvalues, h⟩ := (bind_eq_ok_iff _ _ _).mp h
          obtain ⟨operator, hoperator, h⟩ := (bind_eq_ok_iff _ _ _).mp h
          cases h
          obtain ⟨given, hgiven, rfl⟩ := (operatorFor_eq_ok_iff _).mp hoperator
          exact .multi choices hfound hvalues hgiven
  | integer min max =>
      obtain ⟨found, hfound, h⟩ := (bind_eq_ok_iff _ _ _).mp h
      obtain ⟨expected, hexpected, h⟩ := (bind_eq_ok_iff _ _ _).mp h
      obtain ⟨comparison, hcomparison, h⟩ := (bind_eq_ok_iff _ _ _).mp h
      cases h
      rw [integerOfJson_eq_ok_iff] at hexpected
      rw [Option.getD_or]
      exact .integer min max (hexpected ▸ hfound) hcomparison
  | text =>
      obtain ⟨found, hfound, h⟩ := (bind_eq_ok_iff _ _ _).mp h
      obtain ⟨values, hvalues, h⟩ := (bind_eq_ok_iff _ _ _).mp h
      obtain ⟨operator, hoperator, h⟩ := (bind_eq_ok_iff _ _ _).mp h
      obtain ⟨caseSensitive, hcase, h⟩ := (bind_eq_ok_iff _ _ _).mp h
      cases h
      obtain ⟨given, hgiven, rfl⟩ := (operatorFor_eq_ok_iff _).mp hoperator
      rw [Option.getD_or]
      exact .text hfound hvalues hgiven hcase

theorem criteriaOfJson_of_reads (h : Reads p prefs value kind criteria) :
    p.criteriaOfJson kind prefs value = .ok criteria := by
  cases h with
  | single choices hvalue =>
      refine (bind_eq_ok_iff _ _ _).mpr ⟨_, hvalue, (bind_eq_ok_iff _ _ _).mpr ⟨_, ?_, rfl⟩⟩
      rw [Scalar.ofJson_toJson]
      rfl
  | multi choices hfound hvalues hoperator =>
      have hfor := (operatorFor_eq_ok_iff (p := p) _).mpr ⟨_, hoperator, rfl⟩
      refine (bind_eq_ok_iff _ _ _).mpr ⟨_, hfound, (bind_eq_ok_iff _ _ _).mpr ⟨_, hvalues, ?_⟩⟩
      exact (bind_eq_ok_iff _ _ _).mpr ⟨_, hfor, rfl⟩
  | integer min max hvalue hcomparison =>
      refine (bind_eq_ok_iff _ _ _).mpr ⟨_, hvalue, (bind_eq_ok_iff _ _ _).mpr ⟨_, rfl, ?_⟩⟩
      refine (bind_eq_ok_iff _ _ _).mpr ⟨_, hcomparison, ?_⟩
      simp only [Option.getD_or]
      rfl
  | text hfound hvalues hoperator hcase =>
      have hfor := (operatorFor_eq_ok_iff (p := p) _).mpr ⟨_, hoperator, rfl⟩
      refine (bind_eq_ok_iff _ _ _).mpr ⟨_, hfound, (bind_eq_ok_iff _ _ _).mpr ⟨_, hvalues, ?_⟩⟩
      refine (bind_eq_ok_iff _ _ _).mpr ⟨_, hfor, (bind_eq_ok_iff _ _ _).mpr ⟨_, hcase, ?_⟩⟩
      simp only [Option.getD_or]
      rfl

/-- A value is decoded exactly to the criteria that it reads as, with the switches that it gives. -/
theorem queryOfJson_eq_ok_iff (query : FieldQuery) :
    p.queryOfJson kind prefs value = .ok query ↔
      Reads p prefs value kind query.criteria ∧
      ∃ accept invert, setting "accept_missing" Expect.flag value = .ok accept ∧
        setting "invert" Expect.flag value = .ok invert ∧
        query.acceptMissing = accept.getD prefs.acceptMissing ∧ query.invert = invert.getD false := by
  constructor
  · intro h
    obtain ⟨criteria, hcriteria, h⟩ := (bind_eq_ok_iff _ _ _).mp h
    obtain ⟨accept, haccept, h⟩ := (bind_eq_ok_iff _ _ _).mp h
    obtain ⟨invert, hinvert, h⟩ := (bind_eq_ok_iff _ _ _).mp h
    cases h
    exact ⟨reads_of_criteriaOfJson hcriteria, accept, invert, haccept, hinvert, rfl, rfl⟩
  · intro h
    obtain ⟨hreads, accept, invert, haccept, hinvert, hmissing, hinverted⟩ := h
    refine (bind_eq_ok_iff _ _ _).mpr ⟨_, criteriaOfJson_of_reads hreads, ?_⟩
    refine (bind_eq_ok_iff _ _ _).mpr ⟨_, haccept, (bind_eq_ok_iff _ _ _).mpr ⟨_, hinvert, ?_⟩⟩
    rw [← hmissing, ← hinverted]
    rfl

end Reading

end Presentation

/-- The criteria with the defaults of a presentation and preferences, in the settings that a value leaves out. -/
def Criteria.refilled (p : Presentation) (prefs : Preferences) (value : Json) : Criteria → Criteria
  | single x => single x
  | multi values operator =>
      multi values (Presentation.saidOr "operator" value operator (p.operator.getD .or))
  | integer expected comparison =>
      integer expected (Presentation.saidOr "comparison" value comparison (p.comparison.getD .eq))
  | text values operator caseSensitive =>
      text values (Presentation.saidOr "operator" value operator (p.operator.getD .or))
        (Presentation.saidOr "case" value caseSensitive (p.caseSensitive.getD prefs.caseSensitive))

/-- The query with the defaults of a presentation and preferences, in the settings that a value leaves out. -/
def FieldQuery.refilled (p : Presentation) (prefs : Preferences) (value : Json) (query : FieldQuery) : FieldQuery where
  criteria := query.criteria.refilled p prefs value
  acceptMissing := Presentation.saidOr "accept_missing" value query.acceptMissing prefs.acceptMissing
  invert := Presentation.saidOr "invert" value query.invert false

namespace Presentation

section Defaults

variable {p : Presentation} {prefs : Preferences} {kind : FieldKind} {value : Json} {criteria : Criteria}
  {query : FieldQuery}

theorem reads_refilled (h : Reads p prefs value kind criteria) (p' : Presentation) (prefs' : Preferences) :
    Reads p' prefs' value kind (criteria.refilled p' prefs' value) := by
  cases h with
  | single choices hvalue =>
      exact .single choices hvalue
  | multi choices hfound hvalues hoperator =>
      rw [Criteria.refilled, saidOr_of_setting hoperator]
      exact .multi choices hfound hvalues hoperator
  | integer min max hvalue hcomparison =>
      rw [Criteria.refilled, saidOr_of_setting hcomparison]
      exact .integer min max hvalue hcomparison
  | text hfound hvalues hoperator hcase =>
      rw [Criteria.refilled, saidOr_of_setting hoperator, saidOr_of_setting hcase]
      exact .text hfound hvalues hoperator hcase

/-- With other defaults, only the settings that are left out are other ones. -/
theorem queryOfJson_refilled (h : p.queryOfJson kind prefs value = .ok query) (p' : Presentation)
    (prefs' : Preferences) : p'.queryOfJson kind prefs' value = .ok (query.refilled p' prefs' value) := by
  obtain ⟨hreads, accept, invert, haccept, hinvert, hmissing, hinverted⟩ := (queryOfJson_eq_ok_iff _).mp h
  refine (queryOfJson_eq_ok_iff _).mpr ⟨reads_refilled hreads p' prefs', accept, invert, haccept, hinvert, ?_, ?_⟩
  · rw [FieldQuery.refilled, hmissing, saidOr_of_setting haccept]
  · rw [FieldQuery.refilled, hinverted, saidOr_of_setting hinvert]

end Defaults

section SpelledOut

variable {p : Presentation} {prefs : Preferences} {kind : FieldKind} {value : Json} {query : FieldQuery}
  {members : Members} {name : String}

theorem operand_of_get? {found : Json} (h : Members.get? name members = some found) :
    operand name (.object members) = .ok found := by
  simp only [operand, h]

theorem setting_of_get? {α : Type} {expect : Json → Except Fault α} {found : Json} {a : α}
    (h : Members.get? name members = some found) (hexpect : expect found = .ok a) :
    setting name expect (.object members) = .ok (some a) := by
  simp only [setting, h, hexpect]

theorem selectionOfJson_toJson {values : List Scalar} (h : values.Nodup) :
    selectionOfJson (.array (values.map Scalar.toJson)) = .ok values := by
  rw [selectionOfJson, Field.mapM_ofJson_toJson]
  exact congrArg Except.ok (eraseDups_of_nodup h)

theorem nodup_of_selectionOfJson {found : Json} {values : List Scalar} (h : selectionOfJson found = .ok values) :
    values.Nodup := by
  rw [selectionOfJson.eq_def] at h
  split at h
  · obtain ⟨_, _, h⟩ := (bind_eq_ok_iff _ _ _).mp h
    cases h
    exact nodup_eraseDups _
  · cases h

theorem partsOfJson_strings (values : List String) : partsOfJson (.array (values.map .string)) = .ok values := by
  rw [partsOfJson, mapM_eq_ok_iff, List.forall₂_map_left_iff, List.forall₂_same]
  exact fun _ _ => rfl

/-- What is spelled out are the members that the kind reads, in their order. -/
theorem names_spelledOut (h : Reads p prefs value kind query.criteria) :
    Members.names query.spelledOut = kind.settingNames := by
  obtain ⟨criteria, acceptMissing, invert⟩ := query
  cases h <;> rfl

theorem nodup_spelledOut (h : Reads p prefs value kind query.criteria) :
    (Members.names query.spelledOut).Nodup := by
  rw [names_spelledOut h]
  generalize query.criteria = criteria at h
  cases h <;> simp [FieldKind.settingNames]

/-- The members say what is spelled out, as far as the kind reads them. -/
def Spells (kind : FieldKind) (query : FieldQuery) (members : Members) : Prop :=
  ∀ name ∈ kind.settingNames, Members.get? name members = Members.get? name query.spelledOut

/-- Members spell a query out in any order and among other members. -/
theorem spells_of_perm (h : Reads p prefs value kind query.criteria)
    (hperm : (members.filter fun m => kind.settingNames.contains m.1).Perm query.spelledOut) :
    Spells kind query members := by
  intro name hname
  rw [← Members.get?_perm (nodup_spelledOut h) hperm]
  exact (Members.get?_filter (p := kind.settingNames.contains) (by simpa using hname) members).symm

theorem get?_of_spells (h : Reads p prefs value kind query.criteria) (hspells : Spells kind query members)
    {found : Json} (hmem : (name, found) ∈ query.spelledOut) : Members.get? name members = some found := by
  have hname : name ∈ kind.settingNames := by
    rw [← names_spelledOut h]
    exact List.mem_map.mpr ⟨_, hmem, rfl⟩
  rw [hspells name hname]
  exact (Members.get?_eq_some_iff_mem (nodup_spelledOut h) name found).mpr hmem

theorem reads_of_spells (h : Reads p prefs value kind query.criteria) (hspells : Spells kind query members)
    (p' : Presentation) (prefs' : Preferences) : Reads p' prefs' (.object members) kind query.criteria := by
  have hsaid {name : String} {found : Json} (hmem : (name, found) ∈ query.criteria.spelledOut) :
      Members.get? name members = some found :=
    get?_of_spells h hspells (List.mem_append_left _ hmem)
  -- The settings that were given or left out are all said here, so the defaults play no part any more.
  generalize query.criteria = criteria at h hsaid
  cases h with
  | single choices hvalue =>
      have hspelt := hsaid (List.mem_singleton_self _)
      exact .single choices (operand_of_get? hspelt)
  | @multi choices _ values operator hfound hvalues hoperator =>
      have hspelt := @hsaid "values" _ List.mem_cons_self
      have hsetting := @hsaid "operator" (.string _) (List.mem_cons_of_mem _ List.mem_cons_self)
      exact .multi choices (operand_of_get? hspelt) (selectionOfJson_toJson (nodup_of_selectionOfJson hvalues))
        (setting_of_get? hsetting (Expect.operator_name _))
  | integer min max hvalue hcomparison =>
      have hspelt := @hsaid "value" _ List.mem_cons_self
      have hsetting := @hsaid "comparison" (.string _) (List.mem_cons_of_mem _ List.mem_cons_self)
      exact .integer min max (operand_of_get? hspelt) (setting_of_get? hsetting (Expect.comparison_name _))
  | text hfound hvalues hoperator hcase =>
      have hspelt := @hsaid "values" _ List.mem_cons_self
      have hsetting := @hsaid "operator" (.string _) (List.mem_cons_of_mem _ List.mem_cons_self)
      have hregard := @hsaid "case" (.bool _) (List.mem_cons_of_mem _ (List.mem_cons_of_mem _ List.mem_cons_self))
      exact .text (operand_of_get? hspelt) (partsOfJson_strings _) (setting_of_get? hsetting (Expect.operator_name _))
        (setting_of_get? hregard rfl)

/-- Whoever decodes criteria that are spelled out gets the same query. -/
theorem queryOfJson_of_spells (h : Reads p prefs value kind query.criteria) (hspells : Spells kind query members)
    (p' : Presentation) (prefs' : Preferences) : p'.queryOfJson kind prefs' (.object members) = .ok query := by
  have haccept : Members.get? "accept_missing" members = some (.bool query.acceptMissing) :=
    get?_of_spells h hspells (by simp [FieldQuery.spelledOut])
  have hinvert : Members.get? "invert" members = some (.bool query.invert) :=
    get?_of_spells h hspells (by simp [FieldQuery.spelledOut])
  exact (queryOfJson_eq_ok_iff _).mpr ⟨reads_of_spells h hspells p' prefs', some _, some _,
    setting_of_get? haccept rfl, setting_of_get? hinvert rfl, rfl, rfl⟩

/-- **Criteria spelled out.**  A query that is decoded from a value can be written in full, so that it is decoded to
the same query under every presentation and all preferences, with its members in any order and among any others that
are not read for the kind.  The settings that the value leaves out are those of the presentation, then of the
preferences or fixed ones; with another presentation and other preferences these settings alone are other ones. -/
theorem queryOfJson_spelledOut (h : p.queryOfJson kind prefs value = .ok query) :
    (∀ (p' : Presentation) prefs', p'.queryOfJson kind prefs' (.object query.spelledOut) = .ok query) ∧
    (∀ (p' : Presentation) prefs' (members : Members),
      (members.filter fun m => kind.settingNames.contains m.1).Perm query.spelledOut →
      p'.queryOfJson kind prefs' (.object members) = .ok query) ∧
    query.refilled p prefs value = query ∧
    ∀ (p' : Presentation) prefs', p'.queryOfJson kind prefs' value = .ok (query.refilled p' prefs' value) := by
  obtain ⟨hreads, _⟩ := (queryOfJson_eq_ok_iff _).mp h
  have hrefilled := queryOfJson_refilled h
  refine ⟨fun p' prefs' => queryOfJson_of_spells hreads (fun _ _ => rfl) p' prefs', ?_, ?_, hrefilled⟩
  · intro p' prefs' members hperm
    exact queryOfJson_of_spells hreads (spells_of_perm hreads hperm) p' prefs'
  · exact Except.ok.inj ((hrefilled p prefs).symm.trans h)

/-- Parts of a text, to be found with regard to case or not, as somebody else prefers. -/
theorem queryOfJson_spelledOut_parts :
    let value : Json := .object [("values", .string "on\n\nroad"), ("accept_missing", .bool false)]
    let p : Presentation := { operator := some .and }
    let p' : Presentation := { comparison := some .lt, caseSensitive := some true }
    let prefs' : Preferences := { operator := .or, acceptMissing := true }
    let query : FieldQuery := ⟨.text ["on", "road"] .and false, false, false⟩
    let switches : Members := [("accept_missing", .bool false), ("invert", .bool false)]
    let criteria : Members := [("values", .array [.string "on", .string "road"]), ("operator", .string "and"),
      ("case", .bool false)]
    p.queryOfJson .text {} value = .ok query ∧
      p'.queryOfJson .text prefs' (.object (switches ++ ("comparison", .null) :: criteria)) = .ok query ∧
      query.refilled p {} value = query ∧
      p'.queryOfJson .text prefs' value = .ok ⟨.text ["on", "road"] .or true, false, false⟩ := by
  intro value p p' prefs' query switches criteria
  have hread : p.queryOfJson .text {} value = .ok query := by
    rfl
  obtain ⟨_, hmixed, hdefaults, hothers⟩ := queryOfJson_spelledOut hread
  have hperm : ((switches ++ ("comparison", .null) :: criteria).filter fun m =>
      FieldKind.text.settingNames.contains m.1).Perm query.spelledOut :=
    @List.perm_append_comm _ switches criteria
  exact ⟨hread, hmixed p' prefs' _ hperm, hdefaults, hothers p' prefs'⟩

end SpelledOut

end Presentation
end RecordSearch
