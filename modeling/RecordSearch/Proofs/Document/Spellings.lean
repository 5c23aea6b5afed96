import RecordSearch.Proofs.Document.Settings
import RecordSearch.Proofs.Text.Lines

/-!
# Spellings of written criteria

Criteria without settings may be written as a bare value, and the parts that a text is searched for as its lines.

* `FieldKind.operandName`: the member that a bare value stands for.
* `queryOfJson_congr`: what a value is decoded to depends on this member and on the settings; for a text field,
  `queryOfJson_text_congr`, on the parts that the member names.
* `partsOfText_of_inLines`: a text with the parts on lines of their own names the parts.
* `queryOfJson_spellings`: the spellings of criteria are decoded alike.
-/

namespace RecordSearch

open Traversal

/-- The member that a bare value stands for. -/
def FieldKind.operandName : FieldKind → String
  | option _ false | integer _ _ => "value"
  | option _ true | text => "values"

theorem FieldKind.operandName_mem (kind : FieldKind) : kind.operandName ∈ ["value", "values"] := by
  cases kind with
  | option _ multiSelection => cases multiSelection <;> simp [operandName]
  | integer _ _ => simp [operandName]
  | text => simp [operandName]

namespace Presentation

variable {p : Presentation} {prefs : Preferences} {kind : FieldKind} {value value' : Json} {name : String}

theorem setting_congr {α : Type} {expect : Json → Except Fault α} (h : member? name value = member? name value') :
    setting name expect value = setting name expect value' := by
  cases hmember : member? name value' with
  | none => rw [setting_of_none (h.trans hmember), setting_of_none hmember]
  | some found => rw [setting_of_some (h.trans hmember), setting_of_some hmember]

/-- Decoding depends on the criteria and on the two switches. -/
theorem queryOfJson_of_criteria (hcriteria : p.criteriaOfJson kind prefs value = p.criteriaOfJson kind prefs value')
    (haccept : member? "accept_missing" value = member? "accept_missing" value')
    (hinvert : member? "invert" value = member? "invert" value') :
    p.queryOfJson kind prefs value = p.queryOfJson kind prefs value' := by
  rw [queryOfJson, queryOfJson, hcriteria, setting_congr haccept, setting_congr hinvert]

/-- The values have the same settings, if any. -/
def SameSettings (value value' : Json) : Prop :=
  ∀ name, name ∉ ["value", "values"] → member? name value = member? name value'

/-- Criteria for a text field are decoded from the parts that they name, and from the settings. -/
theorem queryOfJson_text_congr (hsettings : SameSettings value value')
    (hparts : operand "values" value >>= partsOfJson = operand "values" value' >>= partsOfJson) :
    p.queryOfJson .text prefs value = p.queryOfJson .text prefs value' := by
  have hoperator : p.operatorFor value = p.operatorFor value' := by
    rw [operatorFor, operatorFor, setting_congr (hsettings "operator" (by decide))]
  refine queryOfJson_of_criteria ?_ (hsettings _ (by decide)) (hsettings _ (by decide))
  rw [criteriaOfJson, criteriaOfJson, hoperator, setting_congr (hsettings "case" (by decide)), ← bind_assoc, hparts,
    bind_assoc]

/-- Criteria are decoded from the member that a bare value stands for, and from the settings. -/
theorem queryOfJson_congr (hsettings : SameSettings value value')
    (hoperand : operand kind.operandName value = operand kind.operandName value') :
    p.queryOfJson kind prefs value = p.queryOfJson kind prefs value' := by
  have haccept := hsettings "accept_missing" (by decide)
  have hinvert := hsettings "invert" (by decide)
  cases kind with
  | option choices multiSelection =>
      cases multiSelection with
      | false =>
          rw [FieldKind.operandName] at hoperand
          refine queryOfJson_of_criteria ?_ haccept hinvert
          rw [criteriaOfJson, criteriaOfJson, hoperand]
      | true =>
          have hoperator : p.operatorFor value = p.operatorFor value' := by
            rw [operatorFor, operatorFor, setting_congr (hsettings "operator" (by decide))]
          rw [FieldKind.operandName] at hoperand
          refine queryOfJson_of_criteria ?_ haccept hinvert
          rw [criteriaOfJson, criteriaOfJson, hoperand, hoperator]
  | integer min max =>
      rw [FieldKind.operandName] at hoperand
      refine queryOfJson_of_criteria ?_ haccept hinvert
      rw [criteriaOfJson, criteriaOfJson, hoperand, setting_congr (hsettings "comparison" (by decide))]
  | text =>
      rw [FieldKind.operandName] at hoperand
      refine queryOfJson_text_congr hsettings ?_
      rw [hoperand]

section Bare

theorem member?_of_bare (hbare : value.isObject = false) (name : String) : member? name value = none := by
  cases value with
  | object _ => cases hbare
  | null | bool _ | number _ | string _ | array _ => rfl

theorem operand_of_bare (hbare : value.isObject = false) (name : String) : operand name value = .ok value := by
  cases value with
  | object _ => cases hbare
  | null | bool _ | number _ | string _ | array _ => rfl

/-- A bare value is decoded as the object that has it alone. -/
theorem queryOfJson_bare (hbare : value.isObject = false) :
    p.queryOfJson kind prefs (.object [(kind.operandName, value)]) = p.queryOfJson kind prefs value := by
  refine queryOfJson_congr ?_ ?_
  · intro name hname
    have hother : kind.operandName ≠ name := by
      intro heq
      exact hname (heq ▸ kind.operandName_mem)
    rw [member?_of_bare hbare, member?, Members.get?_cons, if_neg hother, Members.get?_nil]
  · rw [operand_of_bare hbare]
    exact operand_of_get? (by simp [Members.get?_cons])

end Bare

section Lines

variable {parts : List String} {text : String}

/-- A text with the parts on lines of their own names the parts. -/
theorem partsOfText_of_inLines (hplain : ∀ part ∈ parts, Text.Plain part.toList)
    (hlines : Text.InLines (parts.map String.toList) text.toList) : partsOfText text = parts := by
  have hlinesPlain : ∀ line ∈ parts.map String.toList, Text.Plain line := by
    intro line hline
    obtain ⟨part, hpart, rfl⟩ := List.mem_map.mp hline
    exact hplain part hpart
  have hback : String.ofList ∘ String.toList = id := funext fun _ => String.ofList_toList
  rw [partsOfText, Text.filter_lines hlines hlinesPlain, List.map_map, hback, List.map_id]

theorem partsOfJson_of_inLines (hplain : ∀ part ∈ parts, Text.Plain part.toList)
    (hlines : Text.InLines (parts.map String.toList) text.toList) :
    partsOfJson (.string text) = partsOfJson (.array (parts.map .string)) := by
  rw [partsOfJson_strings, partsOfJson, partsOfText_of_inLines hplain hlines]

theorem inLines_joined (ending : String) (hending : Text.LineEnd ending.toList) (parts : List String) :
    Text.InLines (parts.map String.toList) (ending.intercalate parts).toList := by
  rw [String.toList_intercalate]
  exact Text.inLines_intercalate hending _

theorem sameSettings_insert (found found' : Json) (members : Members) :
    SameSettings (.object (Members.insert "values" found members))
      (.object (Members.insert "values" found' members)) := by
  intro name hname
  have hother : "values" ≠ name := by
    intro heq
    exact hname (heq ▸ by simp)
  rw [member?, member?, Members.get?_insert, Members.get?_insert, if_neg hother, if_neg hother]

theorem queryOfJson_parts (p : Presentation) (prefs : Preferences) (parts : List String) :
    p.queryOfJson .text prefs (.array (parts.map .string)) =
      .ok ⟨.text parts (p.operator.getD .or) (p.caseSensitive.getD prefs.caseSensitive), prefs.acceptMissing,
        false⟩ := by
  have hnone (name : String) : member? name (.array (parts.map .string)) = none := by
    rfl
  refine (queryOfJson_eq_ok_iff _).mpr
    ⟨?_, none, none, setting_of_none (hnone _), setting_of_none (hnone _), rfl, rfl⟩
  exact .text rfl (partsOfJson_strings parts) (setting_of_none (hnone _)) (setting_of_none (hnone _))

/-- **The spellings of criteria agree.**  A value that is no object is decoded, or refused, as the object that has it as
its only member.  Parts that are not empty, and end with no carriage return, are decoded as a list, as the lines of a
text with either end of a line, and as its lines with blank lines in any places, also in an object with settings. -/
theorem queryOfJson_spellings (p : Presentation) (prefs : Preferences) :
    (∀ (kind : FieldKind) (value : Json), value.isObject = false →
      p.queryOfJson kind prefs (.object [(kind.operandName, value)]) = p.queryOfJson kind prefs value) ∧
    ∀ parts : List String, (∀ part ∈ parts, Text.Plain part.toList) →
      (∃ query, p.queryOfJson .text prefs (.array (parts.map .string)) = .ok query ∧
        p.queryOfJson .text prefs (.string ("\n".intercalate parts)) = .ok query ∧
        p.queryOfJson .text prefs (.string ("\r\n".intercalate parts)) = .ok query ∧
        ∀ text : String, Text.InLines (parts.map String.toList) text.toList →
          p.queryOfJson .text prefs (.string text) = .ok query) ∧
      ∀ (text : String) (members : Members), Text.InLines (parts.map String.toList) text.toList →
        p.queryOfJson .text prefs (.object (Members.insert "values" (.string text) members)) =
          p.queryOfJson .text prefs (.object (Members.insert "values" (.array (parts.map .string)) members)) := by
  refine ⟨fun kind value hbare => queryOfJson_bare hbare, fun parts hplain => ⟨?_, ?_⟩⟩
  · have hlist := queryOfJson_parts p prefs parts
    have hspelt (text : String) (hlines : Text.InLines (parts.map String.toList) text.toList) :
        p.queryOfJson .text prefs (.string text) = p.queryOfJson .text prefs (.array (parts.map .string)) :=
      queryOfJson_text_congr (fun _ _ => rfl) (partsOfJson_of_inLines hplain hlines)
    refine ⟨_, hlist, ?_, ?_, fun text hlines => (hspelt text hlines).trans hlist⟩
    · exact (hspelt _ (inLines_joined "\n" .feed parts)).trans hlist
    · exact (hspelt _ (inLines_joined "\r\n" .returnFeed parts)).trans hlist
  · intro text members hlines
    refine queryOfJson_text_congr (sameSettings_insert _ _ members) ?_
    rw [operand_of_get? (Members.get?_insert _ _ _ _ |>.trans (if_pos rfl)),
      operand_of_get? (Members.get?_insert _ _ _ _ |>.trans (if_pos rfl))]
    exact partsOfJson_of_inLines hplain hlines

/-- A number in words, and two parts with blank lines before, between and after them. -/
theorem queryOfJson_spellings_road :
    let p : Presentation := { operator := some .and }
    let parts : List String := ["on", "the road"]
    let text : String := "\r\non\n\n\r\nthe road\r\n"
    (∀ part ∈ parts, Text.Plain part.toList) ∧ Text.InLines (parts.map String.toList) text.toList ∧
      p.queryOfJson (.integer none none) {} (.object [("value", .string "many")]) =
        p.queryOfJson (.integer none none) {} (.string "many") ∧
      p.queryOfJson .text {} (.string text) = p.queryOfJson .text {} (.array [.string "on", .string "the road"]) := by
  intro p parts text
  have hplain : ∀ part ∈ parts, Text.Plain part.toList := by
    intro part hpart
    rcases List.mem_pair.mp hpart with rfl | rfl
    · exact ⟨by decide, by decide, by decide⟩
    · exact ⟨by decide, by decide, by decide⟩
  have htext : text.toList = ['\r', '\n'] ++ ("on".toList ++ ['\n'] ++ (['\n'] ++ (['\r', '\n'] ++
      ("the road".toList ++ ['\r', '\n'] ++ [])))) := by
    decide
  have hlines : Text.InLines (parts.map String.toList) text.toList := by
    rw [htext]
    exact .blank .returnFeed (.line _ .feed (.blank .feed (.blank .returnFeed (.line _ .returnFeed .empty))))
  obtain ⟨hbare, hparts⟩ := queryOfJson_spellings p {}
  obtain ⟨⟨query, hlist, _, _, htext⟩, _⟩ := hparts parts hplain
  exact ⟨hplain, hlines, hbare _ _ rfl, (htext text hlines).trans hlist.symm⟩

end Lines

end Presentation
end RecordSearch
