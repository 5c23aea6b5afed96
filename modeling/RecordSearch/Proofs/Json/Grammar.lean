import RecordSearch.Json.Reader.Value
import RecordSearch.Proofs.Json.Numerals
import RecordSearch.Proofs.Json.Quotes

/-!
# The grammar of values

Which symbols write a JSON value, and how the parts of a container follow each other.

* `Source.Blank`: blanks, which may stand around every value, name and sign.
* `Json.Phrase`, `Json.Spells`: the symbols of a value and of the parts of a container, down to a given number of
  levels.
* `Json.Ends`: a value that is no number may be followed by anything; `Json.Follows`: what stands behind a value in a
  container never goes on with it.
* `Json.Starts`, `Json.TakesMember`: a source begins with a value, or with a member behind its opening quote.
* `skipColon_eq_ok_iff`, `firstName_none_iff` and the like: what stands between the parts.
* `item_of_starts`, `starts_of_item` and the like: a part between blanks, and a source that begins with it.
-/

namespace RecordSearch

namespace Source

/-- Only blanks. -/
def Blank (text : Source) : Prop :=
  ∀ s ∈ text, isBlank s = true

theorem blank_nil : Blank [] :=
  nofun

theorem skipBlanks_append {before : Source} (h : Blank before) (source : Source) :
    skipBlanks (before ++ source) = skipBlanks source :=
  List.dropWhile_append_of_pos h

theorem skipBlanks_cons {s : Symbol} (h : isBlank s = false) (rest : Source) : skipBlanks (s :: rest) = s :: rest :=
  List.dropWhile_cons_of_neg (by rw [h]; exact Bool.false_ne_true)

theorem exists_blank_append (source : Source) : ∃ before, Blank before ∧ source = before ++ skipBlanks source := by
  exact ⟨source.takeWhile isBlank, List.all_eq_true.mp List.all_takeWhile, List.takeWhile_append_dropWhile.symm⟩

theorem blank_of_skipBlanks {source next : Source} (h : skipBlanks source = next) :
    ∃ before, Blank before ∧ source = before ++ next := by
  obtain ⟨before, hblank, hsource⟩ := exists_blank_append source
  exact ⟨before, hblank, h ▸ hsource⟩

theorem skipBlanks_skipBlanks (source : Source) : skipBlanks (skipBlanks source) = skipBlanks source := by
  obtain ⟨before, hblank, hsource⟩ := exists_blank_append source
  rw [← skipBlanks_append hblank, ← hsource]

/-- Exactly the given characters are taken. -/
theorem expect_eq_ok_iff (letters : List Char) (source rest : Source) :
    expect letters source = .ok rest ↔ source = letters.map .char ++ rest := by
  induction letters generalizing source with
  | nil =>
      rw [expect, Except.ok.injEq]
      rfl
  | cons c letters ih =>
      cases source with
      | nil => simp [expect]
      | cons s source =>
          rw [expect]
          split
          · subst s
            rw [ih, List.map_cons, List.cons_append, List.cons.injEq, eq_self_iff_true, true_and]
          · rename_i hs
            simp [hs]

end Source

namespace Json

open Source

/-! ## The grammar -/

/-- A value or a part of a container. -/
inductive Phrase where
  | value (v : Json)
  /-- A value between blanks. -/
  | item (v : Json)
  /-- The rest of an array after its opening bracket. -/
  | items (vs : List Json)
  | member (name : String) (v : Json)
  /-- The rest of an object after its opening brace; a name may be written twice. -/
  | members (ms : Members)

/-- The symbols write the part, with containers nested at most `levels` deep. -/
inductive Spells : Nat → Source → Phrase → Prop
  | null {levels : Nat} : Spells levels (['n', 'u', 'l', 'l'].map .char) (.value .null)
  | true {levels : Nat} : Spells levels (['t', 'r', 'u', 'e'].map .char) (.value (.bool Bool.true))
  | false {levels : Nat} : Spells levels (['f', 'a', 'l', 's', 'e'].map .char) (.value (.bool Bool.false))
  | string {levels : Nat} {text : Source} {s : String} (h : Quoted.Spells text s.toList) :
      Spells levels (.char '"' :: text) (.value (.string s))
  | number {levels : Nat} {text : Source} {n : Number} (h : Number.Spells text n) :
      Spells levels text (.value (.number n))
  | array {levels : Nat} {text : Source} {vs : List Json} (h : Spells levels text (.items vs)) :
      Spells (levels + 1) (.char '[' :: text) (.value (.array vs))
  | object {levels : Nat} {text : Source} {ms : Members} (h : Spells levels text (.members ms)) :
      Spells (levels + 1) (.char '\x7b' :: text) (.value (.object (Members.ofList ms)))
  | item {levels : Nat} {before text after : Source} {v : Json} (hbefore : Blank before)
      (h : Spells levels text (.value v)) (hafter : Blank after) : Spells levels (before ++ (text ++ after)) (.item v)
  | noItems {levels : Nat} {before : Source} (hbefore : Blank before) :
      Spells levels (before ++ [.char ']']) (.items [])
  | lastItem {levels : Nat} {text : Source} {v : Json} (h : Spells levels text (.item v)) :
      Spells levels (text ++ [.char ']']) (.items [v])
  | moreItems {levels : Nat} {text rest : Source} {v w : Json} {vs : List Json} (h : Spells levels text (.item v))
      (hrest : Spells levels rest (.items (w :: vs))) :
      Spells levels (text ++ .char ',' :: rest) (.items (v :: w :: vs))
  | member {levels : Nat} {before quoted gap text : Source} {name : String} {v : Json} (hbefore : Blank before)
      (hname : Quoted.Spells quoted name.toList) (hgap : Blank gap) (h : Spells levels text (.item v)) :
      Spells levels (before ++ .char '"' :: (quoted ++ (gap ++ .char ':' :: text))) (.member name v)
  | noMembers {levels : Nat} {before : Source} (hbefore : Blank before) :
      Spells levels (before ++ [.char '\x7d']) (.members [])
  | lastMember {levels : Nat} {text : Source} {name : String} {v : Json} (h : Spells levels text (.member name v)) :
      Spells levels (text ++ [.char '\x7d']) (.members [(name, v)])
  | moreMembers {levels : Nat} {text rest : Source} {name : String} {v : Json} {m : String × Json} {ms : Members}
      (h : Spells levels text (.member name v)) (hrest : Spells levels rest (.members (m :: ms))) :
      Spells levels (text ++ .char ',' :: rest) (.members ((name, v) :: m :: ms))

/-- The rest does not go on with the value. -/
def Ends : Json → Source → Source → Prop
  | .number _, text, rest => Number.Ends text rest
  | _, _, _ => True

/-- The source begins, after blanks, with a value that the rest does not go on with. -/
def Starts (levels : Nat) (source : Source) (v : Json) (rest : Source) : Prop :=
  ∃ before text, source = before ++ (text ++ rest) ∧ Blank before ∧ Spells levels text (.value v) ∧ Ends v text rest

/-- The source goes on, after an opening quote, with the rest of a name, a colon and a value. -/
def TakesMember (levels : Nat) (source : Source) (name : String) (v : Json) (rest : Source) : Prop :=
  ∃ others after, Quoted.read source = .ok (name, others) ∧ skipColon others = .ok after ∧ Starts levels after v rest

/-- Nothing follows, or what follows a value in a container. -/
def Follows (rest : Source) : Prop :=
  ∀ s ∈ rest.head?, isBlank s = true ∨ s = .char ',' ∨ s = .char ']' ∨ s = .char '\x7d'

theorem follows_nil : Follows [] :=
  nofun

theorem follows_append {after rest : Source} (hafter : Blank after) (hrest : Follows rest) :
    Follows (after ++ rest) := by
  cases after with
  | nil => exact hrest
  | cons s after =>
      intro t ht
      obtain rfl := Option.some.inj ht
      exact Or.inl (hafter _ List.mem_cons_self)

theorem follows_cons {c : Char} (h : c = ',' ∨ c = ']' ∨ c = '\x7d') (rest : Source) : Follows (.char c :: rest) := by
  intro s hs
  obtain rfl := Option.some.inj hs
  rcases h with rfl | rfl | rfl
  · exact Or.inr (Or.inl rfl)
  · exact Or.inr (Or.inr (Or.inl rfl))
  · exact Or.inr (Or.inr (Or.inr rfl))

theorem eq_of_isBlank {s : Symbol} (h : isBlank s = true) :
    s = .char ' ' ∨ s = .char '\n' ∨ s = .char '\t' ∨ s = .char '\r' := by
  simpa [isBlank, or_assoc] using h

theorem ends_number_of_follows {rest : Source} (h : Follows rest) (text : Source) : Number.Ends text rest := by
  cases rest with
  | nil => exact Number.ends_nil text
  | cons s rest =>
      rcases h s rfl with hs | rfl | rfl | rfl
      · rcases eq_of_isBlank hs with rfl | rfl | rfl | rfl
        all_goals exact ⟨fun _ hin => by cases hin; rfl, nofun, nofun⟩
      all_goals exact ⟨fun _ hin => by cases hin; rfl, nofun, nofun⟩

theorem ends_of_follows {rest : Source} (h : Follows rest) (v : Json) (text : Source) : Ends v text rest := by
  cases v with
  | number n => exact ends_number_of_follows h text
  | _ => trivial

/-! ## Between the parts -/

theorem skipColon_eq_ok_iff (source rest : Source) :
    skipColon source = .ok rest ↔ ∃ gap, Blank gap ∧ source = gap ++ .char ':' :: rest := by
  constructor
  · intro h
    rw [skipColon] at h
    split at h
    · cases h
    · rename_i s after hskip
      split at h
      · subst s
        cases h
        exact blank_of_skipBlanks hskip
      · cases h
  · rintro ⟨gap, hgap, rfl⟩
    rw [skipColon, skipBlanks_append hgap]
    rfl

theorem firstName_none_iff (source rest : Source) :
    firstName source = .ok (none, rest) ↔ ∃ before, Blank before ∧ source = before ++ .char '\x7d' :: rest := by
  constructor
  · intro h
    rw [firstName] at h
    split at h
    · cases h
    · rename_i s after hskip
      split at h
      · subst s
        cases h
        exact blank_of_skipBlanks hskip
      · split at h
        · cases h
        · cases h
  · rintro ⟨before, hbefore, rfl⟩
    rw [firstName, skipBlanks_append hbefore]
    rfl

theorem firstName_some_iff (source next : Source) :
    (∃ rest, firstName source = .ok (some next, rest)) ↔
      ∃ before, Blank before ∧ source = before ++ .char '"' :: next := by
  constructor
  · rintro ⟨rest, h⟩
    rw [firstName] at h
    split at h
    · cases h
    · rename_i s after hskip
      split at h
      · cases h
      · split at h
        · subst s
          cases h
          exact blank_of_skipBlanks hskip
        · cases h
  · rintro ⟨before, hbefore, rfl⟩
    refine ⟨next, ?_⟩
    rw [firstName, skipBlanks_append hbefore]
    rfl

theorem nextName_none_iff (source rest : Source) :
    nextName source = .ok (none, rest) ↔ ∃ after, Blank after ∧ source = after ++ .char '\x7d' :: rest := by
  constructor
  · intro h
    rw [nextName] at h
    split at h
    · cases h
    · rename_i s after hskip
      split at h
      · subst s
        cases h
        exact blank_of_skipBlanks hskip
      · split at h
        · split at h
          · cases h
          · split at h
            · cases h
            · split at h
              · cases h
              · cases h
        · cases h
  · rintro ⟨after, hafter, rfl⟩
    rw [nextName, skipBlanks_append hafter]
    rfl

theorem nextName_some_iff (source next : Source) :
    (∃ rest, nextName source = .ok (some next, rest)) ↔ ∃ after before, Blank after ∧ Blank before ∧
      source = after ++ .char ',' :: (before ++ .char '"' :: next) := by
  constructor
  · rintro ⟨rest, h⟩
    rw [nextName] at h
    split at h
    · cases h
    · rename_i s others hskip
      obtain ⟨after, hafter, rfl⟩ := blank_of_skipBlanks hskip
      split at h
      · cases h
      · split at h
        · subst s
          split at h
          · cases h
          · rename_i t others hskip
            obtain ⟨before, hbefore, rfl⟩ := blank_of_skipBlanks hskip
            split at h
            · subst t
              cases h
              exact ⟨after, before, hafter, hbefore, rfl⟩
            · split at h
              · cases h
              · cases h
        · cases h
  · rintro ⟨after, before, hafter, hbefore, rfl⟩
    refine ⟨next, ?_⟩
    rw [nextName, skipBlanks_append hafter, skipBlanks_cons rfl]
    dsimp only
    rw [if_neg (by decide), if_pos rfl, skipBlanks_append hbefore]
    rfl

theorem nextItem_none_iff (source rest : Source) :
    nextItem source = .ok (none, rest) ↔ ∃ after, Blank after ∧ source = after ++ .char ']' :: rest := by
  constructor
  · intro h
    rw [nextItem] at h
    split at h
    · cases h
    · rename_i s after hskip
      split at h
      · subst s
        cases h
        exact blank_of_skipBlanks hskip
      · split at h
        · split at h
          · cases h
          · split at h
            · cases h
            · cases h
        · cases h
  · rintro ⟨after, hafter, rfl⟩
    rw [nextItem, skipBlanks_append hafter]
    rfl

theorem nextItem_some_iff (source next : Source) :
    (∃ rest, nextItem source = .ok (some next, rest)) ↔ ∃ after rest, Blank after ∧
      source = after ++ .char ',' :: rest ∧ next = skipBlanks rest ∧ ∃ s others, next = s :: others ∧ s ≠ .char ']' := by
  constructor
  · rintro ⟨rest, h⟩
    rw [nextItem] at h
    split at h
    · cases h
    · rename_i s others hskip
      obtain ⟨after, hafter, rfl⟩ := blank_of_skipBlanks hskip
      split at h
      · cases h
      · split at h
        · subst s
          split at h
          · cases h
          · rename_i t others hskip
            split at h
            · cases h
            · rename_i ht
              cases h
              exact ⟨after, _, hafter, rfl, hskip.symm, t, others, rfl, ht⟩
        · cases h
  · rintro ⟨after, rest, hafter, rfl, rfl, s, others, hskip, hs⟩
    refine ⟨rest, ?_⟩
    rw [nextItem, skipBlanks_append hafter, skipBlanks_cons rfl]
    dsimp only
    rw [if_neg (by decide), if_pos rfl, hskip]
    dsimp only
    rw [if_neg hs]

/-! ## Blanks around the parts -/

section

variable {levels : Nat} {blanks text : Source} (hblanks : Blank blanks)
include hblanks

theorem blank_append {before : Source} (hbefore : Blank before) : Blank (blanks ++ before) := by
  intro s hs
  rcases List.mem_append.mp hs with hs | hs
  · exact hblanks s hs
  · exact hbefore s hs

theorem spells_blank_item {v : Json} (h : Spells levels text (.item v)) : Spells levels (blanks ++ text) (.item v) := by
  cases h with
  | item hbefore h hafter =>
      rw [← List.append_assoc]
      exact Spells.item (blank_append hblanks hbefore) h hafter

theorem spells_blank_items {vs : List Json} (h : Spells levels text (.items vs)) :
    Spells levels (blanks ++ text) (.items vs) := by
  cases h with
  | noItems hbefore =>
      rw [← List.append_assoc]
      exact Spells.noItems (blank_append hblanks hbefore)
  | lastItem h =>
      rw [← List.append_assoc]
      exact Spells.lastItem (spells_blank_item hblanks h)
  | moreItems h hrest =>
      rw [← List.append_assoc]
      exact Spells.moreItems (spells_blank_item hblanks h) hrest

theorem spells_blank_member {name : String} {v : Json} (h : Spells levels text (.member name v)) :
    Spells levels (blanks ++ text) (.member name v) := by
  cases h with
  | member hbefore hname hgap h =>
      rw [← List.append_assoc]
      exact Spells.member (blank_append hblanks hbefore) hname hgap h

theorem spells_blank_members {ms : Members} (h : Spells levels text (.members ms)) :
    Spells levels (blanks ++ text) (.members ms) := by
  cases h with
  | noMembers hbefore =>
      rw [← List.append_assoc]
      exact Spells.noMembers (blank_append hblanks hbefore)
  | lastMember h =>
      rw [← List.append_assoc]
      exact Spells.lastMember (spells_blank_member hblanks h)
  | moreMembers h hrest =>
      rw [← List.append_assoc]
      exact Spells.moreMembers (spells_blank_member hblanks h) hrest

end

theorem item_of_starts {levels : Nat} {source rest : Source} {v : Json} (h : Starts levels source v rest) :
    ∃ text, source = text ++ rest ∧ ∀ after, Blank after → Spells levels (text ++ after) (.item v) := by
  obtain ⟨before, text, rfl, hbefore, hspells, -⟩ := h
  refine ⟨before ++ text, by rw [List.append_assoc], fun after hafter => ?_⟩
  rw [List.append_assoc]
  exact Spells.item hbefore hspells hafter

theorem member_of_takes {levels : Nat} {source rest : Source} {name : String} {v : Json}
    (h : TakesMember levels source name v rest) : ∃ text, source = text ++ rest ∧
      ∀ after, Blank after → Spells levels (.char '"' :: (text ++ after)) (.member name v) := by
  obtain ⟨others, next, hname, hcolon, hstarts⟩ := h
  obtain ⟨quoted, rfl, hquoted⟩ := (Quoted.read_eq_ok_iff _ _ _).mp hname
  obtain ⟨gap, hgap, rfl⟩ := (skipColon_eq_ok_iff _ _).mp hcolon
  obtain ⟨text, rfl, hitem⟩ := item_of_starts hstarts
  refine ⟨quoted ++ (gap ++ .char ':' :: text), by simp, fun after hafter => ?_⟩
  simpa using Spells.member blank_nil hquoted hgap (hitem after hafter)

theorem head_of_numeral {text : Source} (h : Number.IsNumeral text) :
    ∃ c rest, text = .char c :: rest ∧ startsNumber c = true := by
  obtain ⟨s, rest, rfl, rfl | ⟨d, hd⟩⟩ := Number.exists_head_of_isNumeral h
  · exact ⟨_, _, rfl, rfl⟩
  · cases s with
    | stray b => cases hd
    | char c =>
        rw [digit?] at hd
        split at hd
        · rename_i hc
          exact ⟨c, rest, rfl, by rw [startsNumber, hc, Bool.or_true]⟩
        · cases hd

theorem ne_of_startsNumber {c d : Char} (hc : startsNumber c = true) (hd : startsNumber d = false) : c ≠ d := by
  rintro rfl
  rw [hc] at hd
  cases hd

theorem not_blank_of_startsNumber {c : Char} (hc : startsNumber c = true) : isBlank (.char c) = false := by
  cases hblank : isBlank (.char c) with
  | false => rfl
  | true =>
      rcases eq_of_isBlank hblank with heq | heq | heq | heq
      all_goals exact absurd (Symbol.char.inj heq) (ne_of_startsNumber hc rfl)

/-- A value begins with a symbol that no end of a container begins with. -/
theorem head_of_spells_value {levels : Nat} {text : Source} {v : Json} (h : Spells levels text (.value v)) :
    ∃ s rest, text = s :: rest ∧ isBlank s = false ∧ s ≠ .char ']' := by
  cases h with
  | null => exact ⟨_, _, rfl, rfl, by decide⟩
  | true => exact ⟨_, _, rfl, rfl, by decide⟩
  | false => exact ⟨_, _, rfl, rfl, by decide⟩
  | string h => exact ⟨_, _, rfl, rfl, by decide⟩
  | number h =>
      obtain ⟨c, rest, rfl, hc⟩ := head_of_numeral h.1
      exact ⟨_, rest, rfl, not_blank_of_startsNumber hc, fun heq => ne_of_startsNumber hc rfl (Symbol.char.inj heq)⟩
  | array h => exact ⟨_, _, rfl, rfl, by decide⟩
  | object h => exact ⟨_, _, rfl, rfl, by decide⟩

theorem skipBlanks_of_value {levels : Nat} {text : Source} {v : Json} (h : Spells levels text (.value v))
    (rest : Source) : skipBlanks (text ++ rest) = text ++ rest := by
  obtain ⟨s, others, rfl, hs, -⟩ := head_of_spells_value h
  exact skipBlanks_cons hs _

theorem skipBlanks_of_items {levels : Nat} {text : Source} {v : Json} {vs : List Json}
    (h : Spells levels text (.items (v :: vs))) (rest : Source) :
    ∃ s others, skipBlanks (text ++ rest) = s :: others ∧ s ≠ .char ']' := by
  have hitem : ∀ {item}, Spells levels item (.item v) → ∀ rest,
      ∃ s others, skipBlanks (item ++ rest) = s :: others ∧ s ≠ .char ']' := by
    intro item hitem rest
    cases hitem with
    | item hbefore hvalue hafter =>
        rw [List.append_assoc, skipBlanks_append hbefore, List.append_assoc, skipBlanks_of_value hvalue]
        obtain ⟨s, others, rfl, -, hs⟩ := head_of_spells_value hvalue
        exact ⟨s, _, rfl, hs⟩
  cases h with
  | lastItem h =>
      rw [List.append_assoc]
      exact hitem h _
  | moreItems h _ =>
      rw [List.append_assoc]
      exact hitem h _

theorem length_of_items {levels : Nat} {text : Source} {vs : List Json}
    (h : Spells levels text (.items vs)) : 0 < text.length := by
  cases h with
  | noItems _ => simp
  | lastItem _ => simp
  | moreItems _ _ =>
      rw [List.length_append, List.length_cons]
      omega

/-! ## Fronts of sources -/

theorem starts_iff (levels : Nat) (source : Source) (v : Json) (rest : Source) : Starts levels source v rest ↔
    ∃ text, skipBlanks source = text ++ rest ∧ Spells levels text (.value v) ∧ Ends v text rest := by
  constructor
  · rintro ⟨before, text, rfl, hbefore, hspells, hends⟩
    exact ⟨text, by rw [skipBlanks_append hbefore, skipBlanks_of_value hspells], hspells, hends⟩
  · rintro ⟨text, hskip, hspells, hends⟩
    obtain ⟨before, hbefore, rfl⟩ := blank_of_skipBlanks hskip
    exact ⟨before, text, rfl, hbefore, hspells, hends⟩

theorem starts_skipBlanks_iff (levels : Nat) (source : Source) (v : Json) (rest : Source) :
    Starts levels (skipBlanks source) v rest ↔ Starts levels source v rest := by
  rw [starts_iff, starts_iff, skipBlanks_skipBlanks]

theorem starts_of_item {levels : Nat} {text : Source} {v : Json} (h : Spells levels text (.item v)) :
    ∃ after, Blank after ∧ ∀ rest, Follows rest → Starts levels (text ++ rest) v (after ++ rest) := by
  cases h with
  | @item _ before text after _ hbefore h hafter =>
      refine ⟨after, hafter, fun rest hrest => ⟨before, text, by simp, hbefore, h, ?_⟩⟩
      exact ends_of_follows (follows_append hafter hrest) v text

theorem takes_of_member {levels : Nat} {text : Source} {name : String} {v : Json}
    (h : Spells levels text (.member name v)) : ∃ before body after, text = before ++ .char '"' :: body ∧ Blank before ∧
      Blank after ∧ ∀ rest, Follows rest → TakesMember levels (body ++ rest) name v (after ++ rest) := by
  cases h with
  | @member _ before quoted gap text _ _ hbefore hname hgap h =>
      obtain ⟨after, hafter, hstarts⟩ := starts_of_item h
      refine ⟨before, _, after, rfl, hbefore, hafter, fun rest hrest => ?_⟩
      refine ⟨gap ++ .char ':' :: (text ++ rest), text ++ rest, ?_, ?_, hstarts rest hrest⟩
      · exact (Quoted.read_eq_ok_iff _ _ name).mpr ⟨quoted, by simp, hname⟩
      · exact (skipColon_eq_ok_iff _ _).mpr ⟨gap, hgap, rfl⟩

end Json
end RecordSearch
