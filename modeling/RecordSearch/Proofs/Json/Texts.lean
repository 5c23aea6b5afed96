import RecordSearch.Proofs.Json.Grammar
import RecordSearch.Proofs.Traversal

/-!
# Texts of values

The reader of values is exact: it takes the symbols that the grammar gives to a value, and leaves all else.

* `readingSound`: by induction on the steps of the reader, what it takes spells what it gives.
* `Reads`, `reads_of_spells`: by induction on the symbols, what spells a part is read as this part.
* `read_eq_ok_iff`: exactly the values at the front of a source are read.
* `ofSource_eq_ok_iff`: a whole text is read by its front, whatever follows.
-/

namespace RecordSearch

/-- The members with others inserted one after the other. -/
def Members.insertAll (members others : Members) : Members :=
  others.foldl (fun acc (n, v) => insert n v acc) members

theorem Members.insertAll_cons (members : Members) (name : String) (v : Json) (others : Members) :
    insertAll members ((name, v) :: others) = insertAll (insert name v members) others :=
  rfl

theorem Members.insertAll_nil_left (members : Members) : insertAll [] members = ofList members :=
  rfl

namespace Json

open Source Traversal

/-! ## What is read -/

theorem readKeyword_eq_ok_iff (letters : List Char) (value : Json) (source : Source) (v : Json) (rest : Source) :
    readKeyword letters value source = .ok (v, rest) ↔ v = value ∧ source = letters.map .char ++ rest := by
  rw [← expect_eq_ok_iff, readKeyword, map_eq_ok_iff]
  constructor
  · rintro ⟨after, hletters, heq⟩
    cases heq
    exact ⟨rfl, hletters⟩
  · rintro ⟨rfl, hletters⟩
    exact ⟨rest, hletters, rfl⟩

/-- What the readers take with so many steps. -/
structure ReadingSound (fuel : Nat) : Prop where
  value : ∀ levels source v rest, readValue fuel levels source = .ok (v, rest) → Starts levels source v rest
  list : ∀ levels source vs rest, readList fuel levels source = .ok (vs, rest) →
    ∃ text, source = text ++ rest ∧ Spells levels text (.items vs)
  items : ∀ levels index before source vs rest, readItems fuel levels index before source = .ok (vs, rest) →
    ∃ text w ws, source = text ++ rest ∧ Spells levels text (.items (w :: ws)) ∧ vs = before.reverse ++ w :: ws
  object : ∀ levels source members rest, readObject fuel levels source = .ok (members, rest) →
    ∃ text ms, source = text ++ rest ∧ Spells levels text (.members ms) ∧ members = Members.ofList ms
  members : ∀ levels before source members rest, readMembers fuel levels before source = .ok (members, rest) →
    ∃ text m ms, source = text ++ rest ∧ Spells levels (.char '"' :: text) (.members (m :: ms)) ∧
      members = Members.insertAll before (m :: ms)

section Sound

variable {fuel : Nat} (ih : ReadingSound fuel)
include ih

theorem sound_value_step (levels : Nat) (source : Source) (v : Json) (rest : Source)
    (h : readValue (fuel + 1) levels source = .ok (v, rest)) : Starts levels source v rest := by
  rw [readValue] at h
  split at h
  · cases h
  · cases h
  · rename_i c others hskip
    obtain ⟨before, hbefore, rfl⟩ := blank_of_skipBlanks hskip
    suffices hfront : ∃ text, .char c :: others = text ++ rest ∧ Spells levels text (.value v) ∧ Ends v text rest by
      obtain ⟨text, hsource, hspells⟩ := hfront
      exact ⟨before, text, hsource ▸ rfl, hbefore, hspells⟩
    split at h
    · subst c
      obtain ⟨rfl, rfl⟩ := (readKeyword_eq_ok_iff _ _ _ _ _).mp h
      exact ⟨_, rfl, Spells.null, trivial⟩
    split at h
    · subst c
      obtain ⟨rfl, rfl⟩ := (readKeyword_eq_ok_iff _ _ _ _ _).mp h
      exact ⟨_, rfl, Spells.true, trivial⟩
    split at h
    · subst c
      obtain ⟨rfl, rfl⟩ := (readKeyword_eq_ok_iff _ _ _ _ _).mp h
      exact ⟨_, rfl, Spells.false, trivial⟩
    split at h
    · subst c
      obtain ⟨⟨s, after⟩, hquoted, h⟩ := (map_eq_ok_iff _ _ _).mp h
      cases h
      obtain ⟨text, rfl, hspells⟩ := (Quoted.read_eq_ok_iff _ _ _).mp hquoted
      exact ⟨_, rfl, Spells.string hspells, trivial⟩
    split at h
    · obtain ⟨⟨n, after⟩, hnumber, h⟩ := (map_eq_ok_iff _ _ _).mp h
      cases h
      obtain ⟨text, hsource, hspells, hends⟩ := (Number.read_eq_ok_iff _ _ _).mp hnumber
      exact ⟨text, hsource, Spells.number hspells, hends⟩
    split at h
    · subst c
      split at h
      · cases h
      · obtain ⟨⟨vs, after⟩, hlist, h⟩ := (map_eq_ok_iff _ _ _).mp h
        cases h
        obtain ⟨text, rfl, hspells⟩ := ih.list _ _ _ _ hlist
        exact ⟨_, rfl, Spells.array hspells, trivial⟩
    split at h
    · subst c
      split at h
      · cases h
      · obtain ⟨⟨members, after⟩, hobject, h⟩ := (map_eq_ok_iff _ _ _).mp h
        cases h
        obtain ⟨text, ms, rfl, hspells, rfl⟩ := ih.object _ _ _ _ hobject
        exact ⟨_, rfl, Spells.object hspells, trivial⟩
    cases h

theorem sound_list_step (levels : Nat) (source : Source) (vs : List Json) (rest : Source)
    (h : readList (fuel + 1) levels source = .ok (vs, rest)) :
    ∃ text, source = text ++ rest ∧ Spells levels text (.items vs) := by
  rw [readList] at h
  split at h
  · cases h
  · rename_i s others hskip
    obtain ⟨before, hbefore, rfl⟩ := blank_of_skipBlanks hskip
    split at h
    · subst s
      cases h
      exact ⟨_, by simp, Spells.noItems hbefore⟩
    · obtain ⟨text, w, ws, hsource, hspells, rfl⟩ := ih.items _ _ _ _ _ _ h
      rw [hsource]
      exact ⟨before ++ text, by simp, spells_blank_items hbefore hspells⟩

theorem sound_items_step (levels index : Nat) (before : List Json) (source : Source) (vs : List Json) (rest : Source)
    (h : readItems (fuel + 1) levels index before source = .ok (vs, rest)) :
    ∃ text w ws, source = text ++ rest ∧ Spells levels text (.items (w :: ws)) ∧ vs = before.reverse ++ w :: ws := by
  rw [readItems] at h
  split at h
  · cases h
  · rename_i v others hvalue
    obtain ⟨text, rfl, hitem⟩ := item_of_starts (ih.value _ _ _ _ hvalue)
    split at h
    · cases h
    · rename_i hnext
      cases h
      obtain ⟨after, hafter, rfl⟩ := (nextItem_none_iff _ _).mp hnext
      refine ⟨_, v, [], ?_, Spells.lastItem (hitem after hafter), ?_⟩
      · simp
      · simp
    · rename_i next _ hnext
      obtain ⟨after, others, hafter, rfl, rfl, -⟩ := (nextItem_some_iff _ _).mp ⟨_, hnext⟩
      obtain ⟨more, w, ws, hmore, hitems, rfl⟩ := ih.items _ _ _ _ _ _ h
      obtain ⟨between, hbetween, rfl⟩ := blank_of_skipBlanks hmore
      refine ⟨_, v, w :: ws, ?_, Spells.moreItems (hitem after hafter) (spells_blank_items hbetween hitems), ?_⟩
      · simp
      · simp

theorem sound_object_step (levels : Nat) (source : Source) (members : Members) (rest : Source)
    (h : readObject (fuel + 1) levels source = .ok (members, rest)) :
    ∃ text ms, source = text ++ rest ∧ Spells levels text (.members ms) ∧ members = Members.ofList ms := by
  rw [readObject] at h
  split at h
  · cases h
  · rename_i hname
    cases h
    obtain ⟨before, hbefore, rfl⟩ := (firstName_none_iff _ _).mp hname
    exact ⟨_, [], by simp, Spells.noMembers hbefore, rfl⟩
  · rename_i hname
    obtain ⟨before, hbefore, rfl⟩ := (firstName_some_iff _ _).mp ⟨_, hname⟩
    obtain ⟨text, m, ms, rfl, hspells, rfl⟩ := ih.members _ _ _ _ _ h
    exact ⟨before ++ .char '"' :: text, m :: ms, by simp, spells_blank_members hbefore hspells, rfl⟩

theorem sound_members_step (levels : Nat) (before : Members) (source : Source) (members : Members) (rest : Source)
    (h : readMembers (fuel + 1) levels before source = .ok (members, rest)) :
    ∃ text m ms, source = text ++ rest ∧ Spells levels (.char '"' :: text) (.members (m :: ms)) ∧
      members = Members.insertAll before (m :: ms) := by
  rw [readMembers] at h
  split at h
  · cases h
  · rename_i name others hname
    split at h
    · cases h
    · rename_i others hcolon
      split at h
      · cases h
      · rename_i v others hvalue
        obtain ⟨text, rfl, hmember⟩ := member_of_takes ⟨_, _, hname, hcolon, ih.value _ _ _ _ hvalue⟩
        dsimp only at h
        split at h
        · cases h
        · rename_i hnext
          cases h
          obtain ⟨after, hafter, rfl⟩ := (nextName_none_iff _ _).mp hnext
          exact ⟨text ++ (after ++ [.char '\x7d']), (name, v), [], by simp,
            by simpa using Spells.lastMember (hmember after hafter), rfl⟩
        · rename_i hnext
          obtain ⟨after, between, hafter, hbetween, rfl⟩ := (nextName_some_iff _ _).mp ⟨_, hnext⟩
          obtain ⟨more, m, ms, rfl, hmembers, rfl⟩ := ih.members _ _ _ _ _ h
          exact ⟨text ++ (after ++ .char ',' :: (between ++ .char '"' :: more)), (name, v), m :: ms, by simp,
            by simpa using Spells.moreMembers (hmember after hafter) (spells_blank_members hbetween hmembers), rfl⟩

end Sound

theorem readingSound (fuel : Nat) : ReadingSound fuel := by
  induction fuel with
  | zero =>
      constructor
      · intro levels source v rest h
        simp [readValue] at h
      · intro levels source vs rest h
        simp [readList] at h
      · intro levels index before source vs rest h
        simp [readItems] at h
      · intro levels source members rest h
        simp [readObject] at h
      · intro levels before source members rest h
        simp [readMembers] at h
  | succ fuel ih =>
      exact ⟨sound_value_step ih, sound_list_step ih, sound_items_step ih, sound_object_step ih,
        sound_members_step ih⟩

/-! ## What is taken -/

theorem readValue_blank_append (fuel levels : Nat) {before : Source} (hbefore : Blank before) (source : Source) :
    readValue (fuel + 1) levels (before ++ source) = readValue (fuel + 1) levels source := by
  rw [readValue, skipBlanks_append hbefore, readValue]

theorem readItems_skipBlanks (fuel levels index : Nat) (before : List Json) (source : Source) :
    readItems (fuel + 2) levels index before (skipBlanks source) = readItems (fuel + 2) levels index before source := by
  obtain ⟨blanks, hblanks, hsource⟩ := exists_blank_append source
  conv => rhs; rw [hsource, readItems, readValue_blank_append fuel levels hblanks]
  rw [readItems]

/-- Goes on after a member. -/
def afterMember (fuel levels : Nat) (before : Members) (source : Source) : Reading Members :=
  match nextName source with
  | .error stop => .error stop
  | .ok (none, rest) => .ok (before, rest)
  | .ok (some rest, _) => readMembers fuel levels before rest

/-- The symbols are read as the part, if there are steps enough.  A container takes three steps for one symbol, its opening
sign: the value, the list or object, and the first of its parts. -/
def Reads (levels : Nat) (text : Source) : Phrase → Prop
  | .value v => ∀ fuel rest, 3 * text.length ≤ fuel → Ends v text rest →
      readValue fuel levels (text ++ rest) = .ok (v, rest)
  | .item v => ∃ after, Blank after ∧ ∀ fuel rest, 3 * text.length ≤ fuel → Follows rest →
      readValue fuel levels (text ++ rest) = .ok (v, after ++ rest)
  | .items [] => True
  | .items (v :: vs) => ∀ fuel index before rest, 3 * text.length + 1 ≤ fuel →
      readItems fuel levels index before (text ++ rest) = .ok (before.reverse ++ v :: vs, rest)
  | .member name v => ∃ before body after, text = before ++ .char '"' :: body ∧ Blank before ∧ Blank after ∧
      ∀ fuel members rest, 3 * text.length ≤ fuel → Follows rest →
        readMembers (fuel + 1) levels members (body ++ rest) =
          afterMember fuel levels (Members.insert name v members) (after ++ rest)
  | .members [] => True
  | .members (m :: ms) => ∃ before body, text = before ++ .char '"' :: body ∧ Blank before ∧
      ∀ fuel members rest, 3 * text.length + 1 ≤ fuel → readMembers fuel levels members (body ++ rest) =
        .ok (Members.insertAll members (m :: ms), rest)

section Reads

variable {levels : Nat} {text : Source}

theorem readValue_number (fuel : Nat) {c : Char} (h : startsNumber c = true) (rest : Source) :
    readValue (fuel + 1) levels (.char c :: rest) =
      (Number.read (.char c :: rest)).map fun (n, rest) => (.number n, rest) := by
  rw [readValue, skipBlanks_cons (not_blank_of_startsNumber h)]
  dsimp only
  rw [if_neg (ne_of_startsNumber h rfl), if_neg (ne_of_startsNumber h rfl), if_neg (ne_of_startsNumber h rfl),
    if_neg (ne_of_startsNumber h rfl), if_pos h]

theorem readValue_quote (fuel : Nat) (rest : Source) :
    readValue (fuel + 1) levels (.char '"' :: rest) = (Quoted.read rest).map fun (s, rest) => (.string s, rest) := by
  rw [readValue, skipBlanks_cons rfl]
  rfl

theorem readValue_bracket (fuel : Nat) (rest : Source) :
    readValue (fuel + 1) (levels + 1) (.char '[' :: rest) =
      (readList fuel levels rest).map fun (items, rest) => (.array items, rest) := by
  rw [readValue, skipBlanks_cons rfl]
  rfl

theorem readValue_brace (fuel : Nat) (rest : Source) :
    readValue (fuel + 1) (levels + 1) (.char '\x7b' :: rest) =
      (readObject fuel levels rest).map fun (members, rest) => (.object members, rest) := by
  rw [readValue, skipBlanks_cons rfl]
  rfl

theorem reads_number {n : Number} (h : Number.Spells text n) : Reads levels text (.value (.number n)) := by
  intro fuel rest hfuel hends
  have hread := (Number.read_eq_ok_iff _ rest n).mpr ⟨_, rfl, h, hends⟩
  obtain ⟨c, others, rfl, hc⟩ := head_of_numeral h.1
  rw [List.length_cons] at hfuel
  obtain ⟨fuel, rfl⟩ := Nat.exists_eq_add_of_le' (show 1 ≤ fuel by omega)
  rw [List.cons_append] at hread ⊢
  rw [readValue_number fuel hc, hread]
  rfl

theorem reads_string {s : String} (h : Quoted.Spells text s.toList) :
    Reads levels (.char '"' :: text) (.value (.string s)) := by
  intro fuel rest hfuel _
  rw [List.length_cons] at hfuel
  obtain ⟨fuel, rfl⟩ := Nat.exists_eq_add_of_le' (show 1 ≤ fuel by omega)
  rw [List.cons_append, readValue_quote, (Quoted.read_eq_ok_iff _ rest s).mpr ⟨text, rfl, h⟩]
  rfl

theorem reads_item {before after : Source} {v : Json} (hbefore : Blank before) (hspells : Spells levels text (.value v))
    (h : Reads levels text (.value v)) (hafter : Blank after) : Reads levels (before ++ (text ++ after)) (.item v) := by
  refine ⟨after, hafter, fun fuel rest hfuel hrest => ?_⟩
  obtain ⟨s, others, rfl, -, -⟩ := head_of_spells_value hspells
  simp only [List.length_append, List.length_cons] at hfuel
  obtain ⟨fuel, rfl⟩ := Nat.exists_eq_add_of_le' (show 1 ≤ fuel by omega)
  rw [List.append_assoc, readValue_blank_append fuel levels hbefore, List.append_assoc]
  have hends := ends_of_follows (follows_append hafter hrest) v (s :: others)
  exact h (fuel + 1) (after ++ rest) (by rw [List.length_cons]; omega) hends

theorem reads_lastItem {v : Json} (h : Reads levels text (.item v)) :
    Reads levels (text ++ [.char ']']) (.items [v]) := by
  obtain ⟨after, hafter, h⟩ := h
  intro fuel index before rest hfuel
  rw [List.length_append, List.length_singleton] at hfuel
  obtain ⟨fuel, rfl⟩ := Nat.exists_eq_add_of_le' (show 1 ≤ fuel by omega)
  have hvalue := h fuel (.char ']' :: rest) (by omega) (follows_cons (by decide) rest)
  have hnext := (nextItem_none_iff (after ++ .char ']' :: rest) rest).mpr ⟨after, hafter, rfl⟩
  rw [List.append_assoc, List.singleton_append, readItems, hvalue]
  dsimp only
  rw [hnext]
  simp

theorem reads_moreItems {more : Source} {v w : Json} {vs : List Json} (h : Reads levels text (.item v))
    (hspells : Spells levels more (.items (w :: vs))) (hmore : Reads levels more (.items (w :: vs))) :
    Reads levels (text ++ .char ',' :: more) (.items (v :: w :: vs)) := by
  obtain ⟨after, hafter, h⟩ := h
  intro fuel index before rest hfuel
  rw [List.length_append, List.length_cons] at hfuel
  obtain ⟨fuel, rfl⟩ := Nat.exists_eq_add_of_le' (show 3 ≤ fuel by omega)
  have hvalue := h (fuel + 2) (.char ',' :: (more ++ rest)) (by omega) (follows_cons (by decide) _)
  obtain ⟨unused, hnext⟩ := (nextItem_some_iff (after ++ .char ',' :: (more ++ rest)) _).mpr
    ⟨after, more ++ rest, hafter, rfl, rfl, skipBlanks_of_items hspells rest⟩
  rw [List.append_assoc, List.cons_append, readItems, hvalue]
  dsimp only
  rw [hnext]
  dsimp only
  rw [readItems_skipBlanks, hmore _ _ _ _ (by omega)]
  simp

theorem reads_array {vs : List Json} (hspells : Spells levels text (.items vs)) (h : Reads levels text (.items vs)) :
    Reads (levels + 1) (.char '[' :: text) (.value (.array vs)) := by
  intro fuel rest hfuel _
  have hlength := length_of_items hspells
  rw [List.length_cons] at hfuel
  obtain ⟨fuel, rfl⟩ := Nat.exists_eq_add_of_le' (show 4 ≤ fuel by omega)
  have hlist : readList (fuel + 3) levels (text ++ rest) = .ok (vs, rest) := by
    cases vs with
    | nil =>
        cases hspells with
        | noItems hbefore =>
            rw [readList, List.append_assoc, skipBlanks_append hbefore]
            rfl
    | cons v vs =>
        -- The list is not over before its first item, which the bracket would tell.
        obtain ⟨s, others, hskip, hs⟩ := skipBlanks_of_items hspells rest
        rw [readList, hskip]
        dsimp only
        rw [if_neg hs, ← hskip, readItems_skipBlanks]
        exact h _ 0 [] rest (by omega)
  rw [List.cons_append, readValue_bracket, hlist]
  rfl

theorem reads_member {before quoted gap : Source} {name : String} {v : Json} (hbefore : Blank before)
    (hname : Quoted.Spells quoted name.toList) (hgap : Blank gap) (h : Reads levels text (.item v)) :
    Reads levels (before ++ .char '"' :: (quoted ++ (gap ++ .char ':' :: text))) (.member name v) := by
  obtain ⟨after, hafter, h⟩ := h
  refine ⟨before, _, after, rfl, hbefore, hafter, fun fuel members rest hfuel hrest => ?_⟩
  simp only [List.length_append, List.length_cons] at hfuel
  have hquoted := (Quoted.read_eq_ok_iff (quoted ++ (gap ++ .char ':' :: (text ++ rest))) _ name).mpr
    ⟨quoted, rfl, hname⟩
  have hcolon := (skipColon_eq_ok_iff (gap ++ .char ':' :: (text ++ rest)) _).mpr ⟨gap, hgap, rfl⟩
  rw [List.append_assoc, List.append_assoc, List.cons_append, readMembers, hquoted]
  dsimp only
  rw [hcolon]
  dsimp only
  rw [h fuel rest (by omega) hrest]
  rfl

theorem reads_lastMember {name : String} {v : Json} (h : Reads levels text (.member name v)) :
    Reads levels (text ++ [.char '\x7d']) (.members [(name, v)]) := by
  obtain ⟨before, body, after, rfl, hbefore, hafter, h⟩ := h
  refine ⟨before, body ++ [.char '\x7d'], by simp, hbefore, fun fuel members rest hfuel => ?_⟩
  rw [List.length_append, List.length_singleton] at hfuel
  obtain ⟨fuel, rfl⟩ := Nat.exists_eq_add_of_le' (show 1 ≤ fuel by omega)
  have hnext := (nextName_none_iff (after ++ .char '\x7d' :: rest) rest).mpr ⟨after, hafter, rfl⟩
  rw [List.append_assoc, List.singleton_append, h _ _ _ (by omega) (follows_cons (by decide) rest), afterMember, hnext]
  rfl

theorem reads_moreMembers {more : Source} {name : String} {v : Json} {m : String × Json} {ms : Members}
    (h : Reads levels text (.member name v)) (hmore : Reads levels more (.members (m :: ms))) :
    Reads levels (text ++ .char ',' :: more) (.members ((name, v) :: m :: ms)) := by
  obtain ⟨before, body, after, rfl, hbefore, hafter, h⟩ := h
  obtain ⟨between, next, rfl, hbetween, hmore⟩ := hmore
  refine ⟨before, body ++ .char ',' :: (between ++ .char '"' :: next), by simp, hbefore,
    fun fuel members rest hfuel => ?_⟩
  rw [List.length_append, List.length_cons] at hfuel
  obtain ⟨fuel, rfl⟩ := Nat.exists_eq_add_of_le' (show 1 ≤ fuel by omega)
  obtain ⟨unused, hnext⟩ := (nextName_some_iff (after ++ .char ',' :: (between ++ .char '"' :: (next ++ rest))) _).mpr
    ⟨after, between, hafter, hbetween, rfl⟩
  have hmember := h fuel members (.char ',' :: (between ++ .char '"' :: (next ++ rest))) (by omega)
    (follows_cons (by decide) _)
  rw [List.append_assoc, List.cons_append, List.append_assoc, List.cons_append, hmember, afterMember, hnext]
  exact hmore fuel _ rest (by omega)

theorem reads_object {ms : Members} (hspells : Spells levels text (.members ms)) (h : Reads levels text (.members ms)) :
    Reads (levels + 1) (.char '\x7b' :: text) (.value (.object (Members.ofList ms))) := by
  intro fuel rest hfuel _
  rw [List.length_cons] at hfuel
  obtain ⟨fuel, rfl⟩ := Nat.exists_eq_add_of_le' (show 3 ≤ fuel by omega)
  have hobject : readObject (fuel + 2) levels (text ++ rest) = .ok (Members.ofList ms, rest) := by
    cases ms with
    | nil =>
        cases hspells with
        | @noMembers _ before hbefore =>
            have hname := (firstName_none_iff (before ++ .char '\x7d' :: rest) rest).mpr ⟨before, hbefore, rfl⟩
            rw [readObject, List.append_assoc, List.singleton_append, hname]
            rfl
    | cons m ms =>
        obtain ⟨before, body, rfl, hbefore, h⟩ := h
        obtain ⟨unused, hname⟩ := (firstName_some_iff (before ++ .char '"' :: (body ++ rest)) _).mpr
          ⟨before, hbefore, rfl⟩
        rw [readObject, List.append_assoc, List.cons_append, hname]
        exact h _ [] rest (by omega)
  rw [List.cons_append, readValue_brace, hobject]
  rfl

theorem reads_keyword {c : Char} {letters : List Char} {v : Json}
    (h : ∀ fuel rest, readValue (fuel + 1) levels (.char c :: rest) = readKeyword letters v rest) :
    Reads levels ((c :: letters).map .char) (.value v) := by
  intro fuel rest hfuel _
  rw [List.map_cons, List.length_cons] at hfuel
  obtain ⟨fuel, rfl⟩ := Nat.exists_eq_add_of_le' (show 1 ≤ fuel by omega)
  rw [List.map_cons, List.cons_append, h, readKeyword_eq_ok_iff]
  exact ⟨rfl, rfl⟩

end Reads

/-- What spells a part is read as this part. -/
theorem reads_of_spells {levels : Nat} {text : Source} {phrase : Phrase} (h : Spells levels text phrase) :
    Reads levels text phrase := by
  induction h with
  | null =>
      refine reads_keyword fun fuel rest => ?_
      rw [readValue, skipBlanks_cons rfl]
      rfl
  | true =>
      refine reads_keyword fun fuel rest => ?_
      rw [readValue, skipBlanks_cons rfl]
      rfl
  | false =>
      refine reads_keyword fun fuel rest => ?_
      rw [readValue, skipBlanks_cons rfl]
      rfl
  | string h => exact reads_string h
  | number h => exact reads_number h
  | array h ih => exact reads_array h ih
  | object h ih => exact reads_object h ih
  | item hbefore h hafter ih => exact reads_item hbefore h ih hafter
  | noItems _ => trivial
  | lastItem _ ih => exact reads_lastItem ih
  | moreItems _ hrest ih ihrest => exact reads_moreItems ih hrest ihrest
  | member hbefore hname hgap _ ih => exact reads_member hbefore hname hgap ih
  | noMembers _ => trivial
  | lastMember _ ih => exact reads_lastMember ih
  | moreMembers _ _ ih ihrest => exact reads_moreMembers ih ihrest

/-! ## The front of a source -/

/-- Exactly the values at the front of a source are read. -/
theorem read_eq_ok_iff (levels : Nat) (source : Source) (v : Json) (rest : Source) :
    read levels source = .ok (v, rest) ↔ Starts levels source v rest := by
  constructor
  · exact (readingSound _).value levels source v rest
  · rintro ⟨before, text, rfl, hbefore, hspells, hends⟩
    rw [read, readValue_blank_append _ _ hbefore]
    refine reads_of_spells hspells _ rest ?_ hends
    rw [List.length_append, List.length_append]
    omega

/-- A text is read as a value if it begins with the value, whatever follows. -/
theorem ofSource_eq_ok_iff (source : Source) (v : Json) :
    ofSource source = .ok v ↔ ∃ rest, Starts nestingLimit source v rest := by
  rw [ofSource]
  constructor
  · intro h
    split at h
    · rename_i value rest hread
      cases h
      exact ⟨rest, (read_eq_ok_iff _ _ _ _).mp hread⟩
    · cases h
  · rintro ⟨rest, hstarts⟩
    rw [(read_eq_ok_iff _ _ _ _).mpr hstarts]

end Json
end RecordSearch
