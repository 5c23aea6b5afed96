import RecordSearch.Preferences
import RecordSearch.Proofs.Json.ShapeTexts

/-!
# Written preferences

Preferences are written with all their members and read with any of them.

* `Json.spells_indented_object`: the indented text of an object spells its members, if it does so for each value.
* `Preferences.blend`: preferences of which only the given members hold in place of others.
* `Preferences.takeMembers_written`: every member stores its own value.
* `Preferences.ofText_written`: whatever part of the members is written, in a value or in a text, is read back.
-/

namespace RecordSearch

open Traversal Source

theorem Expect.operator_name (operator : Operator) : Expect.operator (.string operator.name) = .ok operator := by
  have hparse : Operator.parse? operator.name = some operator := by
    cases operator <;> decide +kernel
  have hdecode : Operator.decode operator.name = .ok operator := by
    rw [Operator.decode, hparse]
  exact congrArg (Except.mapError fun error => Fault.ofMisfit (.refused (Error.message error))) hdecode

theorem Expect.comparison_name (comparison : Comparison) :
    Expect.comparison (.string comparison.name) = .ok comparison := by
  have hparse : Comparison.parse? comparison.name = some comparison := by
    cases comparison <;> decide +kernel
  have hdecode : Comparison.decode comparison.name = .ok comparison := by
    rw [Comparison.decode, hparse]
  exact congrArg (Except.mapError fun error => Fault.ofMisfit (.refused (Error.message error))) hdecode

theorem Expect.probed_operator : Probed operator :=
  ⟨nofun, nofun⟩

/-! ## Indented objects -/

namespace Json

/-- The indented form of the value spells it, wherever it stands. -/
def SpelledIndented (v : Json) : Prop :=
  ∀ levels level, Spells levels ((v.indentedChars level).map .char) (.value v)

theorem spelledIndented_string (s : String) : SpelledIndented (.string s) := by
  intro levels level
  exact Spells.string (Quoted.spells_escaped s.toList)

theorem spelledIndented_bool (b : Bool) : SpelledIndented (.bool b) := by
  intro levels level
  cases b with
  | true => exact Spells.true
  | false => exact Spells.false

theorem blank_lineBreak (level : Nat) : Blank ((lineBreak level).map .char) := by
  intro s hs
  obtain ⟨c, hc, rfl⟩ := List.mem_map.mp hs
  rcases List.mem_cons.mp hc with rfl | hc
  · rfl
  · obtain ⟨-, rfl⟩ := List.mem_replicate.mp hc
    rfl

theorem blank_space : Blank [.char ' '] := by
  intro s hs
  obtain rfl := List.mem_singleton.mp hs
  rfl

theorem spells_indented_member (levels level : Nat) (name : String) {v : Json} (h : SpelledIndented v) {after : Source}
    (hafter : Blank after) : Spells levels ((lineBreak level ++ stringChars name ++
      ':' :: ' ' :: v.indentedChars level).map .char ++ after) (.member name v) := by
  have hitem := Spells.item blank_space (h levels level) hafter
  have hmember := Spells.member (blank_lineBreak level) (Quoted.spells_escaped name.toList) blank_nil hitem
  simpa [stringChars] using hmember

/-- Every member stands on a line of its own. -/
theorem spells_indented_members (levels level : Nat) {m : String × Json} {ms : Members}
    (h : ∀ m' ∈ m :: ms, SpelledIndented m'.2) {after : Source} (hafter : Blank after) :
    Spells levels ((indentedMembers level (m :: ms)).tail.map .char ++ (after ++ [.char '\x7d']))
      (.members (m :: ms)) := by
  induction ms generalizing m with
  | nil =>
      have hmember := spells_indented_member levels level m.1 (h m List.mem_cons_self) hafter
      simpa [indentedMembers] using Spells.lastMember hmember
  | cons m' ms ih =>
      have hmember := spells_indented_member levels level m.1 (h m List.mem_cons_self) blank_nil
      have hmore := ih fun other hother => h other (List.mem_cons_of_mem _ hother)
      simpa [indentedMembers] using Spells.moreMembers hmember hmore

theorem spells_indented_object (levels level : Nat) {ms : Members} (h : ∀ m ∈ ms, SpelledIndented m.2) :
    ∃ text, ((Json.object ms).indentedChars level).map .char = .char '\x7b' :: text ∧
      Spells levels text (.members ms) := by
  cases ms with
  | nil => exact ⟨[.char '\x7d'], rfl, Spells.noMembers blank_nil⟩
  | cons m ms =>
      refine ⟨_, ?_, spells_indented_members levels (level + 1) h (blank_lineBreak level)⟩
      simp [indentedChars]

end Json

namespace Preferences

/-! ## Some of the members -/

/-- The members that write preferences. -/
def members (p : Preferences) : Members := [
  ("operator", .string p.operator.name),
  ("accept_missing", .bool p.acceptMissing),
  ("case_sensitive", .bool p.caseSensitive),
  ("separator", .string p.separator)]

/-- The preferences `p` in what these members say, and `q` in all else. -/
def blend (p q : Preferences) (names : List String) : Preferences where
  operator := if "operator" ∈ names then p.operator else q.operator
  acceptMissing := if "accept_missing" ∈ names then p.acceptMissing else q.acceptMissing
  caseSensitive := if "case_sensitive" ∈ names then p.caseSensitive else q.caseSensitive
  separator := if "separator" ∈ names then p.separator else q.separator

theorem toJson_eq (p : Preferences) : p.toJson = .object p.members :=
  rfl

theorem blend_nil (p q : Preferences) : p.blend q [] = q :=
  rfl

theorem blend_names_members (p q : Preferences) : p.blend q (Members.names p.members) = p :=
  rfl

theorem blend_blend (p q : Preferences) (name : String) (names : List String) :
    p.blend (p.blend q [name]) names = p.blend q (name :: names) := by
  have hpick : ∀ {α : Type} (a b : α) (n : String),
      (if n ∈ names then a else if n ∈ [name] then a else b) = if n ∈ name :: names then a else b := by
    intro α a b n
    by_cases hn : n ∈ names
    · simp [hn]
    · simp [hn]
  simp only [blend, hpick]

/-- A member stores its own value, whatever holds before. -/
theorem takeMembers_member {p : Preferences} {m : String × Json} (hm : m ∈ p.members) (rest : Members)
    (q : Preferences) : shape.takeMembers (m :: rest) q = shape.takeMembers rest (p.blend q [m.1]) := by
  simp only [members, List.mem_cons, List.not_mem_nil, or_false] at hm
  rcases hm with rfl | rfl | rfl | rfl
  · exact Shape.takeMembers_cons rest rfl (Slot.assign_of "operator" _ (Expect.operator_name _) q)
  · exact Shape.takeMembers_cons rest rfl rfl
  · exact Shape.takeMembers_cons rest rfl rfl
  · exact Shape.takeMembers_cons rest rfl rfl

theorem takeMembers_written {p : Preferences} {written : Members} (hwritten : ∀ m ∈ written, m ∈ p.members)
    (q : Preferences) : shape.takeMembers written q = .ok (p.blend q (Members.names written)) := by
  induction written generalizing q with
  | nil => rfl
  | cons m rest ih =>
      rw [takeMembers_member (hwritten m List.mem_cons_self), ih fun other hother =>
        hwritten other (List.mem_cons_of_mem _ hother), blend_blend]
      rfl

theorem spelledIndented_members (p : Preferences) : ∀ m ∈ p.members, m.2.SpelledIndented := by
  simp only [members, List.forall_mem_cons]
  exact ⟨Json.spelledIndented_string _, Json.spelledIndented_bool _, Json.spelledIndented_bool _,
    Json.spelledIndented_string _, nofun⟩

theorem probed_slots : ∀ slot ∈ shape.slots, slot.Probed := by
  simp only [shape, List.forall_mem_cons]
  exact ⟨Slot.probed_of _ _ Expect.probed_operator, Slot.probed_of _ _ Expect.probed_flag,
    Slot.probed_of _ _ Expect.probed_flag, Slot.probed_of _ _ Expect.probed_text, nofun⟩

/-! ## Texts -/

/-- Preferences are read from every text that begins with an object of some of their members. -/
theorem ofSource_spells {p : Preferences} {written : Members} (hwritten : ∀ m ∈ written, m ∈ p.members)
    (hnodup : (Members.names written).Nodup) {before text : Source} (hbefore : Blank before)
    (hspells : Json.Spells Reader.innerLimit text (.members written)) (rest : Source) :
    ofSource (before ++ .char '\x7b' :: (text ++ rest)) = .ok (p.blend standard (Members.names written)) := by
  rw [ofSource, Shape.takeText_eq_ok_iff probed_slots]
  exact ⟨rest, before, _, rfl, hbefore, Shape.Spells.object hspells hnodup (takeMembers_written hwritten standard)⟩

/-- What is written in the way preferences are saved. -/
theorem ofText_indented {p : Preferences} {written : Members} (hwritten : ∀ m ∈ written, m ∈ p.members)
    (hnodup : (Members.names written).Nodup) :
    ofText (Json.object written).indented = .ok (p.blend standard (Members.names written)) := by
  obtain ⟨text, htext, hspells⟩ := Json.spells_indented_object Reader.innerLimit 0 fun m hm =>
    spelledIndented_members p m (hwritten m hm)
  have hsource : Source.ofText (Json.object written).indented = .char '\x7b' :: text := by
    rw [Source.ofText, Json.indented, String.toList_ofList, htext]
  rw [ofText, hsource]
  simpa using ofSource_spells hwritten hnodup blank_nil hspells []

/-- Saved preferences are read back, and of an object of some of the members exactly these are read: decoded as a value,
from the text that saving it gives, and from every other text that begins with it. -/
theorem ofText_text_written (p : Preferences) :
    p.toJson = .object p.members ∧ ofText p.text = .ok p ∧
      ∀ written : Members, (∀ m ∈ written, m ∈ p.members) → (Members.names written).Nodup →
        ofJson (.object written) = .ok (p.blend standard (Members.names written)) ∧
        ofText (Json.object written).indented = .ok (p.blend standard (Members.names written)) ∧
        ∀ before text rest, Blank before → Json.Spells Reader.innerLimit text (.members written) →
          ofSource (before ++ .char '\x7b' :: (text ++ rest)) = .ok (p.blend standard (Members.names written)) := by
  have hnames : (Members.names p.members).Nodup := by
    change ["operator", "accept_missing", "case_sensitive", "separator"].Nodup
    decide
  refine ⟨p.toJson_eq, ?_, fun written hwritten hnodup => ⟨?_, ?_, ?_⟩⟩
  · exact ofText_indented (fun m hm => hm) hnames
  · exact takeMembers_written hwritten standard
  · exact ofText_indented hwritten hnodup
  · exact fun before text rest hbefore hspells => ofSource_spells hwritten hnodup hbefore hspells rest

/-- Quotes, backslashes, control characters and characters beyond 16 bits in a separator come back from a text that says
nothing of the flags, and an operator from a text without blanks that goes on after its end. -/
theorem ofText_text_written_separator :
    let separator := "\"\\\x01\u2028𝄞\n"
    let p : Preferences := ⟨.or, false, true, separator⟩
    let written : Members := [("separator", .string separator), ("operator", .string "or")]
    (∀ m ∈ written, m ∈ p.members) ∧ (Members.names written).Nodup ∧
      ofText (Json.object written).indented = .ok ⟨.or, true, false, separator⟩ ∧
      ofText "\x7b\"operator\":\"or\"\x7d x" = .ok ⟨.or, true, false, "\n\n"⟩ := by
  intro separator p written
  have hwritten : ∀ m ∈ written, m ∈ p.members := by
    simp [written, p, members, Operator.name]
  have hnodup : (Members.names written).Nodup := by
    decide
  have hspells : Json.Spells Reader.innerLimit (['"', 'o', 'p', 'e', 'r', 'a', 't', 'o', 'r', '"', ':', '"', 'o', 'r',
      '"', '\x7d'].map .char) (.members [("operator", .string "or")]) :=
    Json.Spells.lastMember (Json.Spells.member blank_nil (Quoted.spells_escaped "operator".toList) blank_nil
      (Json.Spells.item blank_nil (Json.Spells.string (Quoted.spells_escaped "or".toList)) blank_nil))
  refine ⟨hwritten, hnodup, ((ofText_text_written p).2.2 written hwritten hnodup).2.1, ?_⟩
  have hoperator : ∀ m ∈ [("operator", Json.string "or")], m ∈ p.members := by
    simp [p, members, Operator.name]
  exact ((ofText_text_written p).2.2 _ hoperator (by decide)).2.2 [] _ [.char ' ', .char 'x'] blank_nil hspells

end Preferences
end RecordSearch
