import Mathlib.Data.List.Nodup
import RecordSearch.Proofs.Json.Shape
import RecordSearch.Proofs.Json.Texts

/-!
# Texts of shapes

A shape decodes a text while it is read.  What comes out of it is what the shape makes of the value that the text
begins with, as long as no name is written twice.

* `Expect.Probed`, `Slot.Probed`: whoever refuses an empty container refuses every container of its kind, so that
  refusing it unread changes nothing.
* `Reader.readSlot_eq_ok_iff`: a slot takes one value.
* `Reader.readMembers_of_ok`, `Reader.readItems_of_ok`: what the slots take spells the members of an object or the items
  of an array; `Reader.readMembers_spells`, `Reader.readItems_tail`: what spells them is taken.
* `Shape.Spells`: the symbols write an object or an array of which the shape makes the result.
* `Shape.takeText_eq_ok_iff`: exactly these are decoded, at the front of a source.
-/

namespace RecordSearch

open Traversal Source

namespace Members

theorem insert_of_not_mem {name : String} {members : Members} (h : name ∉ names members) (v : Json) :
    insert name v members = members ++ [(name, v)] := by
  induction members with
  | nil => rfl
  | cons m rest ih =>
      obtain ⟨hname, hrest⟩ := not_or.mp (mt List.mem_cons.mpr h)
      rw [insert, if_neg (Ne.symm hname), ih hrest]
      rfl

theorem insertAll_of_nodup {before members : Members} (h : (names (before ++ members)).Nodup) :
    insertAll before members = before ++ members := by
  induction members generalizing before with
  | nil => exact (List.append_nil before).symm
  | cons m rest ih =>
      obtain ⟨name, v⟩ := m
      have hname : name ∉ names before := by
        intro hin
        rw [names, List.map_append, List.nodup_append] at h
        exact h.2.2 _ hin _ List.mem_cons_self rfl
      rw [List.append_cons] at h ⊢
      rw [insertAll_cons, insert_of_not_mem hname, ih h]

/-- Members whose names differ come to stand one after the other. -/
theorem ofList_of_nodup {members : Members} (h : (names members).Nodup) : ofList members = members := by
  rw [← insertAll_nil_left]
  exact insertAll_of_nodup h

end Members

/-- A container of a kind that is accepted may as well be empty. -/
structure Expect.Probed {α : Type} (expect : Json → Except Fault α) : Prop where
  array : ∀ vs a, expect (.array vs) = .ok a → ∃ b, expect (.array []) = .ok b
  object : ∀ ms a, expect (.object ms) = .ok a → ∃ b, expect (.object []) = .ok b

/-- The slot accepts an empty container where it accepts one of the same kind. -/
def Slot.Probed {σ : Type} (slot : Slot σ) : Prop :=
  ∀ result, Expect.Probed (slot.assign · result)

theorem Slot.probed_of {σ α : Type} (name : String) {expect : Json → Except Fault α} (store : α → σ → σ)
    (h : Expect.Probed expect) : (Slot.of name expect store).Probed := by
  intro result
  constructor
  · intro vs next hassign
    obtain ⟨a, ha, -⟩ := (map_eq_ok_iff _ _ _).mp hassign
    obtain ⟨b, hb⟩ := h.array vs a ha
    exact ⟨_, Slot.assign_of name store hb result⟩
  · intro ms next hassign
    obtain ⟨a, ha, -⟩ := (map_eq_ok_iff _ _ _).mp hassign
    obtain ⟨b, hb⟩ := h.object ms a ha
    exact ⟨_, Slot.assign_of name store hb result⟩

namespace Expect

theorem probed_text : Probed text :=
  ⟨nofun, nofun⟩

theorem probed_flag : Probed flag :=
  ⟨nofun, nofun⟩

theorem probed_members : Probed members :=
  ⟨nofun, fun _ _ _ => ⟨[], rfl⟩⟩

theorem probed_optional {α : Type} {expect : Json → Except Fault α} (h : Probed expect) : Probed (optional expect) := by
  constructor
  · intro vs a ha
    obtain ⟨b, hb, -⟩ := (map_eq_ok_iff _ _ _).mp ha
    obtain ⟨c, hc⟩ := h.array vs b hb
    exact ⟨some c, congrArg (Except.map some) hc⟩
  · intro ms a ha
    obtain ⟨b, hb, -⟩ := (map_eq_ok_iff _ _ _).mp ha
    obtain ⟨c, hc⟩ := h.object ms b hb
    exact ⟨some c, congrArg (Except.map some) hc⟩

end Expect

namespace Reader

open Json

/-! ## One slot -/

section

variable {α : Type} {expect : Json → Except Fault α} {levels : Nat} {source rest : Source} {v : Json} {a : α}

/-- The empty container of the kind that a source begins with. -/
def probe (source : Source) : Option Json :=
  match source with
  | .char c :: _ => if c = '[' then some (.array []) else if c = '\x7b' then some (.object []) else none
  | _ => none

theorem readFor_eq (expect : Json → Except Fault α) (levels : Nat) (source : Source) : readFor expect levels source =
    match (probe source.skipBlanks).map expect with
    | some (.error fault) => .error (stopOf fault source.skipBlanks.width)
    | _ => Json.read levels source.skipBlanks :=
  rfl

theorem probe_of_spells {text : Source} (h : Spells levels text (.value v)) (rest : Source) :
    probe (text ++ rest) = none ∨ (probe (text ++ rest) = some (.array []) ∧ ∃ vs, v = .array vs) ∨
      probe (text ++ rest) = some (.object []) ∧ ∃ ms, v = .object ms := by
  cases h with
  | null => exact Or.inl rfl
  | true => exact Or.inl rfl
  | false => exact Or.inl rfl
  | string h => exact Or.inl rfl
  | number h =>
      obtain ⟨c, others, rfl, hc⟩ := head_of_numeral h.1
      left
      rw [List.cons_append, probe, if_neg (ne_of_startsNumber hc rfl), if_neg (ne_of_startsNumber hc rfl)]
  | array h => exact Or.inr (Or.inl ⟨rfl, _, rfl⟩)
  | object h => exact Or.inr (Or.inr ⟨rfl, _, rfl⟩)

/-- A value that is accepted is not refused unread. -/
theorem readFor_of_starts (hprobed : Expect.Probed expect) (hstarts : Starts levels source v rest)
    (ha : expect v = .ok a) : readFor expect levels source = .ok (v, rest) := by
  have hread := (read_eq_ok_iff _ _ _ _).mpr ((starts_skipBlanks_iff levels source v rest).mpr hstarts)
  obtain ⟨text, hskip, hspells, -⟩ := (starts_iff _ _ _ _).mp hstarts
  rw [readFor_eq, hread, hskip]
  rcases probe_of_spells hspells rest with hprobe | ⟨hprobe, vs, rfl⟩ | ⟨hprobe, ms, rfl⟩
  · rw [hprobe]
    rfl
  · obtain ⟨b, hb⟩ := hprobed.array vs a ha
    rw [hprobe, Option.map_some, hb]
  · obtain ⟨b, hb⟩ := hprobed.object ms a ha
    rw [hprobe, Option.map_some, hb]

theorem starts_of_readFor (h : readFor expect levels source = .ok (v, rest)) : Starts levels source v rest := by
  rw [readFor_eq] at h
  split at h
  · cases h
  · exact (starts_skipBlanks_iff _ _ _ _).mp ((read_eq_ok_iff _ _ _ _).mp h)

end

variable {σ : Type}

theorem readSlot_eq_ok_iff {slot : Slot σ} (hprobed : slot.Probed) (ended : Source → Source) (source : Source)
    (result next : σ) (rest : Source) : readSlot slot ended source result = .ok (next, rest) ↔
      ∃ v, Starts innerLimit source v rest ∧ slot.assign v result = .ok next := by
  constructor
  · intro h
    rw [readSlot] at h
    split at h
    · cases h
    · rename_i v others hread
      split at h
      · rename_i hassign
        cases h
        exact ⟨v, starts_of_readFor hread, hassign⟩
      · cases h
  · rintro ⟨v, hstarts, hassign⟩
    rw [readSlot, readFor_of_starts (hprobed result) hstarts hassign]
    dsimp only
    rw [hassign]

/-! ## Members -/

section Members

variable {shape : Shape σ} (hprobed : ∀ slot ∈ shape.slots, slot.Probed)
include hprobed

theorem probed_of_slot? {name : String} {slot : Slot σ} (h : shape.slot? name = some slot) : slot.Probed :=
  hprobed slot (List.mem_of_find?_eq_some h)

/-- One member is taken, and the next one, if there is one. -/
theorem readMembers_succ_eq_ok_iff (fuel : Nat) (seen : List String) (source : Source) (start result : σ) :
    readMembers shape (fuel + 1) seen source start = .ok result ↔
      ∃ name v rest slot next, TakesMember innerLimit source name v rest ∧ shape.slot? name = some slot ∧ name ∉ seen ∧
        slot.assign v start = .ok next ∧ ((∃ after, nextName rest = .ok (none, after) ∧ next = result) ∨
          ∃ others after, nextName rest = .ok (some others, after) ∧
            readMembers shape fuel (name :: seen) others next = .ok result) := by
  constructor
  · intro h
    rw [readMembers] at h
    split at h
    · cases h
    rename_i name others hname
    split at h
    · cases h
    rename_i slot hslot
    split at h
    · cases h
    rename_i hseen
    split at h
    · cases h
    rename_i others hcolon
    split at h
    · cases h
    rename_i next rest htaken
    obtain ⟨v, hstarts, hassign⟩ := (readSlot_eq_ok_iff (probed_of_slot? hprobed hslot) _ _ _ _ _).mp htaken
    refine ⟨name, v, rest, slot, next, ⟨_, _, hname, hcolon, hstarts⟩, hslot, by simpa using hseen, hassign, ?_⟩
    split at h
    · cases h
    · rename_i after hnext
      cases h
      exact Or.inl ⟨after, hnext, rfl⟩
    · rename_i others after hnext
      exact Or.inr ⟨others, after, hnext, h⟩
  · rintro ⟨name, v, rest, slot, next, ⟨others, after, hname, hcolon, hstarts⟩, hslot, hseen, hassign, hnext⟩
    have htaken := (readSlot_eq_ok_iff (probed_of_slot? hprobed hslot) afterObject after start next rest).mpr
      ⟨v, hstarts, hassign⟩
    have hnew : ¬ seen.contains name = true := by simpa using hseen
    rw [readMembers, hname]
    dsimp only
    rw [hslot]
    dsimp only
    rw [if_neg hnew, hcolon]
    dsimp only
    rw [htaken]
    dsimp only
    rcases hnext with ⟨_, hnext, rfl⟩ | ⟨_, _, hnext, hmore⟩
    · rw [hnext]
    · rw [hnext]
      exact hmore

theorem readMembers_of_ok {fuel : Nat} {seen : List String} {source : Source} {start result : σ}
    (h : readMembers shape fuel seen source start = .ok result) :
    ∃ text rest m ms, source = text ++ rest ∧ Json.Spells innerLimit (.char '"' :: text) (.members (m :: ms)) ∧
      (Members.names (m :: ms)).Nodup ∧ (∀ name ∈ Members.names (m :: ms), name ∉ seen) ∧
        shape.takeMembers (m :: ms) start = .ok result := by
  induction fuel generalizing seen source start with
  | zero => cases h
  | succ fuel ih =>
      obtain ⟨name, v, rest, slot, next, htakes, hslot, hseen, hassign, hnext⟩ :=
        (readMembers_succ_eq_ok_iff hprobed _ _ _ _ _).mp h
      obtain ⟨text, rfl, hmember⟩ := member_of_takes htakes
      rcases hnext with ⟨others, hnext, rfl⟩ | ⟨others, _, hnext, hmore⟩
      · obtain ⟨after, hafter, rfl⟩ := (nextName_none_iff _ _).mp hnext
        refine ⟨text ++ (after ++ [.char '\x7d']), others, (name, v), [], by simp, ?_, List.nodup_singleton name, ?_,
          ?_⟩
        · simpa using Spells.lastMember (hmember after hafter)
        · simpa using hseen
        · exact (Shape.takeMembers_cons_eq_ok_iff _ _ _ _ _).mpr ⟨slot, _, hslot, hassign, rfl⟩
      · obtain ⟨after, between, hafter, hbetween, rfl⟩ := (nextName_some_iff _ _).mp ⟨_, hnext⟩
        obtain ⟨more, rest, m, ms, rfl, hspells, hnodup, hnew, htake⟩ := ih hmore
        refine ⟨text ++ (after ++ .char ',' :: (between ++ .char '"' :: more)), rest, (name, v), m :: ms, by simp, ?_,
          List.nodup_cons.mpr ⟨fun hin => hnew name hin List.mem_cons_self, hnodup⟩, ?_, ?_⟩
        · simpa using Spells.moreMembers (hmember after hafter) (spells_blank_members hbetween hspells)
        · intro other hother
          rcases List.mem_cons.mp hother with rfl | hother
          · exact hseen
          · exact fun hin => hnew other hother (List.mem_cons_of_mem _ hin)
        · exact (Shape.takeMembers_cons_eq_ok_iff _ _ _ _ _).mpr ⟨slot, _, hslot, hassign, htake⟩

theorem readMembers_spells {m : String × Json} {ms : Members} {text : Source} {seen : List String} {start result : σ}
    (h : Json.Spells innerLimit text (.members (m :: ms))) (hnodup : (Members.names (m :: ms)).Nodup)
    (hseen : ∀ name ∈ Members.names (m :: ms), name ∉ seen) (htake : shape.takeMembers (m :: ms) start = .ok result) :
    ∃ before body, text = before ++ .char '"' :: body ∧ Blank before ∧ ms.length ≤ body.length ∧
      ∀ fuel rest, ms.length < fuel → readMembers shape fuel seen (body ++ rest) start = .ok result := by
  induction ms generalizing m text seen start with
  | nil =>
      cases h with
      | @lastMember _ text name v h =>
          obtain ⟨before, body, after, rfl, hbefore, hafter, htakes⟩ := takes_of_member h
          obtain ⟨slot, next, hslot, hassign, hdone⟩ := (Shape.takeMembers_cons_eq_ok_iff _ _ _ _ _).mp htake
          cases hdone
          refine ⟨before, body ++ [.char '\x7d'], by simp, hbefore, Nat.zero_le _, fun fuel rest hfuel => ?_⟩
          obtain ⟨fuel, rfl⟩ := Nat.exists_eq_add_of_le' (show 1 ≤ fuel by omega)
          rw [readMembers_succ_eq_ok_iff hprobed]
          refine ⟨name, v, after ++ .char '\x7d' :: rest, slot, result, ?_, hslot, hseen name List.mem_cons_self,
            hassign, Or.inl ⟨rest, (nextName_none_iff _ _).mpr ⟨after, hafter, rfl⟩, rfl⟩⟩
          rw [List.append_assoc]
          exact htakes _ (follows_cons (by decide) rest)
  | cons m' ms ih =>
      cases h with
      | @moreMembers _ text more name v _ _ h hrest =>
          obtain ⟨before, body, after, rfl, hbefore, hafter, htakes⟩ := takes_of_member h
          obtain ⟨slot, next, hslot, hassign, hmore⟩ := (Shape.takeMembers_cons_eq_ok_iff _ _ _ _ _).mp htake
          obtain ⟨hname, hnodup⟩ := List.nodup_cons.mp hnodup
          have hnew : ∀ other ∈ Members.names (m' :: ms), other ∉ name :: seen := by
            intro other hother hin
            rcases List.mem_cons.mp hin with rfl | hin
            · exact hname hother
            · exact hseen other (List.mem_cons_of_mem _ hother) hin
          obtain ⟨between, next', rfl, hbetween, hlength, hread⟩ := ih hrest hnodup hnew hmore
          refine ⟨before, body ++ .char ',' :: (between ++ .char '"' :: next'), by simp, hbefore, ?_,
            fun fuel rest hfuel => ?_⟩
          · simp only [List.length_append, List.length_cons]
            omega
          · rw [List.length_cons] at hfuel
            obtain ⟨fuel, rfl⟩ := Nat.exists_eq_add_of_le' (show 1 ≤ fuel by omega)
            obtain ⟨unused, hnext⟩ := (nextName_some_iff
              (after ++ .char ',' :: (between ++ .char '"' :: (next' ++ rest))) _).mpr
                ⟨after, between, hafter, hbetween, rfl⟩
            rw [readMembers_succ_eq_ok_iff hprobed]
            refine ⟨name, v, _, slot, next, ?_, hslot, hseen name List.mem_cons_self, hassign,
              Or.inr ⟨_, unused, hnext, hread fuel rest (by omega)⟩⟩
            rw [List.append_assoc, List.cons_append, List.append_assoc, List.cons_append]
            exact htakes _ (follows_cons (by decide) _)

end Members

/-! ## Items -/

/-- The symbols write the end of an array, or a comma and more items. -/
inductive Tail (levels : Nat) : Source → List Json → Prop
  | close {after : Source} (hafter : Blank after) : Tail levels (after ++ [.char ']']) []
  | more {after text : Source} {v : Json} {vs : List Json} (hafter : Blank after)
      (h : Json.Spells levels text (.items (v :: vs))) : Tail levels (after ++ .char ',' :: text) (v :: vs)

theorem items_of_tail {levels : Nat} {source tail rest : Source} {v : Json} {vs : List Json}
    (hstarts : Starts levels source v (tail ++ rest)) (htail : Tail levels tail vs) :
    ∃ text, source = text ++ rest ∧ Json.Spells levels text (.items (v :: vs)) := by
  obtain ⟨text, rfl, hitem⟩ := item_of_starts hstarts
  refine ⟨text ++ tail, by rw [List.append_assoc], ?_⟩
  cases htail with
  | @close after hafter =>
      rw [← List.append_assoc]
      exact Spells.lastItem (hitem after hafter)
  | @more after more w ws hafter h =>
      rw [← List.append_assoc]
      exact Spells.moreItems (hitem after hafter) h

theorem tail_of_items {levels : Nat} {text : Source} {v : Json} {vs : List Json}
    (h : Json.Spells levels text (.items (v :: vs))) :
    ∃ tail, Tail levels tail vs ∧ ∀ rest, Starts levels (text ++ rest) v (tail ++ rest) := by
  cases h with
  | lastItem h =>
      obtain ⟨after, hafter, hstarts⟩ := starts_of_item h
      refine ⟨_, Tail.close hafter, fun rest => ?_⟩
      rw [List.append_assoc, List.append_assoc]
      exact hstarts _ (follows_cons (by decide) rest)
  | moreItems h hrest =>
      obtain ⟨after, hafter, hstarts⟩ := starts_of_item h
      refine ⟨_, Tail.more hafter hrest, fun rest => ?_⟩
      rw [List.append_assoc, List.append_assoc]
      exact hstarts _ (follows_cons (by decide) _)

theorem endOfItems_eq_ok_iff (source : Source) :
    endOfItems source = .ok () ↔ ∃ after rest, Blank after ∧ source = after ++ .char ']' :: rest := by
  constructor
  · intro h
    rw [endOfItems] at h
    split at h
    · cases h
    · rename_i s rest hskip
      split at h
      · subst s
        obtain ⟨after, hafter, rfl⟩ := blank_of_skipBlanks hskip
        exact ⟨after, rest, hafter, rfl⟩
      · split at h
        · split at h
          · cases h
          · cases h
        · cases h
  · rintro ⟨after, rest, hafter, rfl⟩
    rw [endOfItems, skipBlanks_append hafter]
    rfl

theorem readItems_nil (index : Nat) (source : Source) (start : σ) :
    readItems [] index source start = (endOfItems source).map fun _ => start := rfl

theorem readItems_nil_eq_ok_iff (index : Nat) (source : Source) (start result : σ) :
    readItems [] index source start = .ok result ↔
      result = start ∧ ∃ after rest, Blank after ∧ source = after ++ .char ']' :: rest := by
  rw [← endOfItems_eq_ok_iff, readItems_nil, map_eq_ok_iff]
  constructor
  · rintro ⟨_, hend, rfl⟩
    exact ⟨rfl, hend⟩
  · rintro ⟨rfl, hend⟩
    exact ⟨(), hend, rfl⟩

/-- Goes on with the value of a slot. -/
def readFirst (slot : Slot σ) (slots : List (Slot σ)) (index : Nat) (source : Source) (start : σ) : Except Stop σ :=
  match readSlot slot afterItem source start with
  | .error stop => .error (stop.under (.element index))
  | .ok (next, rest) => readItems slots (index + 1) rest next

section Items

variable {slot : Slot σ} {slots : List (Slot σ)} {index count : Nat} {source : Source} {start result : σ}

theorem readFirst_eq_ok_iff (hprobed : slot.Probed) : readFirst slot slots index source start = .ok result ↔
    ∃ v rest next, Starts innerLimit source v rest ∧ slot.assign v start = .ok next ∧
      readItems slots (index + 1) rest next = .ok result := by
  constructor
  · intro h
    rw [readFirst] at h
    split at h
    · cases h
    · rename_i next rest htaken
      obtain ⟨v, hstarts, hassign⟩ := (readSlot_eq_ok_iff hprobed _ _ _ _ _).mp htaken
      exact ⟨v, rest, next, hstarts, hassign, h⟩
  · rintro ⟨v, rest, next, hstarts, hassign, h⟩
    rw [readFirst, (readSlot_eq_ok_iff hprobed _ _ _ _ _).mpr ⟨v, hstarts, hassign⟩]
    exact h

theorem readItems_cons : readItems (slot :: slots) index source start =
    match (if index = 0 then
        match source.skipBlanks with
        | [] => .error (.peek .endInList [])
        | s :: rest => .ok (if s = .char ']' then none else some (s :: rest))
      else (nextItem source).map (·.1) : Except Stop (Option Source)) with
    | .error stop => .error stop
    | .ok none => .ok start
    | .ok (some others) => readFirst slot slots index others start := rfl

theorem readItems_next (hindex : index ≠ 0) : readItems (slot :: slots) index source start =
    match nextItem source with
    | .error stop => .error stop
    | .ok (none, _) => .ok start
    | .ok (some others, _) => readFirst slot slots index others start := by
  rw [readItems_cons, if_neg hindex]
  cases nextItem source with
  | error stop => rfl
  | ok taken =>
      obtain ⟨_ | others, after⟩ := taken
      · rfl
      · rfl

theorem readItems_first : readItems (slot :: slots) 0 source start =
    match source.skipBlanks with
    | [] => .error (.peek .endInList [])
    | s :: rest => if s = .char ']' then .ok start else readFirst slot slots 0 (s :: rest) start := by
  rw [readItems_cons, if_pos rfl]
  cases source.skipBlanks with
  | nil => rfl
  | cons s rest =>
      by_cases hs : s = .char ']'
      · simp only [hs, if_true]
      · simp only [hs, if_false]

/-- What the slots after the first one take. -/
theorem tail_of_ok (hprobed : ∀ slot ∈ slots, slot.Probed) (hindex : index ≠ 0)
    (h : readItems slots index source start = .ok result) : ∃ tail rest vs, source = tail ++ rest ∧
      Tail innerLimit tail vs ∧ ∀ count, Shape.takeItems slots index count vs start = .ok result := by
  induction slots generalizing index source start with
  | nil =>
      obtain ⟨rfl, after, rest, hafter, rfl⟩ := (readItems_nil_eq_ok_iff _ _ _ _).mp h
      exact ⟨_, rest, [], by simp, Tail.close hafter, fun _ => rfl⟩
  | cons slot slots ih =>
      rw [readItems_next hindex] at h
      split at h
      · cases h
      · rename_i rest hnext
        cases h
        obtain ⟨after, hafter, rfl⟩ := (nextItem_none_iff _ _).mp hnext
        exact ⟨_, rest, [], by simp, Tail.close hafter, fun _ => rfl⟩
      · rename_i others _ hnext
        obtain ⟨after, others, hafter, rfl, rfl, -⟩ := (nextItem_some_iff _ _).mp ⟨_, hnext⟩
        obtain ⟨v, rest, next, hstarts, hassign, hmore⟩ :=
          (readFirst_eq_ok_iff (hprobed slot List.mem_cons_self)).mp h
        rw [starts_skipBlanks_iff] at hstarts
        obtain ⟨tail, rest, vs, rfl, htail, htake⟩ :=
          ih (fun other hother => hprobed other (List.mem_cons_of_mem _ hother)) (Nat.succ_ne_zero index) hmore
        obtain ⟨text, rfl, hspells⟩ := items_of_tail hstarts htail
        exact ⟨after ++ .char ',' :: text, rest, v :: vs, by simp, Tail.more hafter hspells,
          fun count => (Shape.takeItems_cons_eq_ok_iff _ _ _ _ _ _ _ _).mpr ⟨next, hassign, htake count⟩⟩

theorem readItems_tail (hprobed : ∀ slot ∈ slots, slot.Probed) (hindex : index ≠ 0) {tail : Source} {vs : List Json}
    (htail : Tail innerLimit tail vs) (htake : Shape.takeItems slots index count vs start = .ok result)
    (rest : Source) : readItems slots index (tail ++ rest) start = .ok result := by
  induction slots generalizing index tail vs start with
  | nil =>
      cases htail with
      | @close after hafter =>
          cases htake
          rw [readItems_nil_eq_ok_iff]
          exact ⟨rfl, after, rest, hafter, by simp⟩
      | more _ _ => cases htake
  | cons slot slots ih =>
      rw [readItems_next hindex]
      cases htail with
      | @close after hafter =>
          cases htake
          rw [List.append_assoc, List.singleton_append, (nextItem_none_iff _ rest).mpr ⟨after, hafter, rfl⟩]
      | @more after text v vs hafter h =>
          obtain ⟨next, hassign, hmore⟩ := (Shape.takeItems_cons_eq_ok_iff _ _ _ _ _ _ _ _).mp htake
          obtain ⟨tail, htail, hstarts⟩ := tail_of_items h
          obtain ⟨unused, hnext⟩ := (nextItem_some_iff (after ++ .char ',' :: (text ++ rest)) _).mpr
            ⟨after, text ++ rest, hafter, rfl, rfl, skipBlanks_of_items h rest⟩
          rw [List.append_assoc, List.cons_append, hnext]
          exact (readFirst_eq_ok_iff (hprobed slot List.mem_cons_self)).mpr ⟨v, tail ++ rest, next,
            (starts_skipBlanks_iff _ _ _ _).mpr (hstarts rest), hassign,
            ih (fun other hother => hprobed other (List.mem_cons_of_mem _ hother)) (Nat.succ_ne_zero index) htail hmore⟩

theorem readItems_of_ok (hprobed : ∀ slot ∈ slots, slot.Probed) (h : readItems slots 0 source start = .ok result) :
    ∃ text rest vs, source = text ++ rest ∧ Json.Spells innerLimit text (.items vs) ∧
      ∀ count, Shape.takeItems slots 0 count vs start = .ok result := by
  cases slots with
  | nil =>
      obtain ⟨rfl, after, rest, hafter, rfl⟩ := (readItems_nil_eq_ok_iff _ _ _ _).mp h
      exact ⟨_, rest, [], by simp, Spells.noItems hafter, fun _ => rfl⟩
  | cons slot slots =>
      rw [readItems_first] at h
      split at h
      · cases h
      · rename_i s others hskip
        obtain ⟨before, hbefore, rfl⟩ := blank_of_skipBlanks hskip
        split at h
        · subst s
          cases h
          exact ⟨_, others, [], by simp, Spells.noItems hbefore, fun _ => rfl⟩
        · obtain ⟨v, rest, next, hstarts, hassign, hmore⟩ :=
            (readFirst_eq_ok_iff (hprobed slot List.mem_cons_self)).mp h
          obtain ⟨tail, rest, vs, rfl, htail, htake⟩ :=
            tail_of_ok (fun other hother => hprobed other (List.mem_cons_of_mem _ hother)) Nat.one_ne_zero hmore
          obtain ⟨text, hsource, hspells⟩ := items_of_tail hstarts htail
          rw [hsource]
          exact ⟨before ++ text, rest, v :: vs, by simp, spells_blank_items hbefore hspells,
            fun count => (Shape.takeItems_cons_eq_ok_iff _ _ _ _ _ _ _ _).mpr ⟨next, hassign, htake count⟩⟩

theorem readItems_spells (hprobed : ∀ slot ∈ slots, slot.Probed) {text : Source} {vs : List Json}
    (h : Json.Spells innerLimit text (.items vs)) (htake : Shape.takeItems slots 0 count vs start = .ok result)
    (rest : Source) : readItems slots 0 (text ++ rest) start = .ok result := by
  cases vs with
  | nil =>
      rw [Shape.takeItems] at htake
      cases htake
      cases h with
      | @noItems _ before hbefore =>
          cases slots with
          | nil =>
              rw [readItems_nil_eq_ok_iff]
              exact ⟨rfl, before, rest, hbefore, by simp⟩
          | cons slot slots =>
              rw [readItems_first, List.append_assoc, skipBlanks_append hbefore]
              rfl
  | cons v vs =>
      cases slots with
      | nil => cases htake
      | cons slot slots =>
          obtain ⟨next, hassign, hmore⟩ := (Shape.takeItems_cons_eq_ok_iff _ _ _ _ _ _ _ _).mp htake
          obtain ⟨s, others, hskip, hs⟩ := skipBlanks_of_items h rest
          obtain ⟨tail, htail, hstarts⟩ := tail_of_items h
          have htaken := readItems_tail (fun other hother => hprobed other (List.mem_cons_of_mem _ hother))
            Nat.one_ne_zero htail hmore rest
          rw [readItems_first, hskip]
          dsimp only
          rw [if_neg hs, readFirst_eq_ok_iff (hprobed slot List.mem_cons_self), ← hskip]
          exact ⟨v, tail ++ rest, next, (starts_skipBlanks_iff _ _ _ _).mpr (hstarts rest), hassign, htaken⟩

end Items

end Reader

/-! ## Objects and arrays -/

namespace Shape

open Reader

variable {σ : Type} {shape : Shape σ}

/-- The symbols write an object without repeated names, or an array, of which the shape makes the result. -/
inductive Spells (shape : Shape σ) (start : σ) : Source → σ → Prop
  | object {text : Source} {ms : Members} {result : σ} (h : Json.Spells innerLimit text (.members ms))
      (hnodup : (Members.names ms).Nodup) (htake : shape.take start (.object ms) = .ok result) :
      Spells shape start (.char '\x7b' :: text) result
  | array {text : Source} {vs : List Json} {result : σ} (h : Json.Spells innerLimit text (.items vs))
      (htake : shape.take start (.array vs) = .ok result) : Spells shape start (.char '[' :: text) result

/-- The source begins, after blanks, with an object or an array of which the shape makes the result. -/
def Starts (shape : Shape σ) (start : σ) (source : Source) (result : σ) (rest : Source) : Prop :=
  ∃ before text, source = before ++ (text ++ rest) ∧ Blank before ∧ shape.Spells start text result

/-- What a shape makes of a text it makes of the value that the text begins with. -/
theorem value_of_starts {start result : σ} {source rest : Source} (h : shape.Starts start source result rest) :
    ∃ v, Json.Starts Json.nestingLimit source v rest ∧ shape.take start v = .ok result := by
  obtain ⟨before, text, hsource, hbefore, hspells⟩ := h
  cases hspells with
  | @object text ms _ h hnodup htake =>
      have hvalue := Json.Spells.object h
      rw [Members.ofList_of_nodup hnodup] at hvalue
      exact ⟨.object ms, ⟨before, _, hsource, hbefore, hvalue, trivial⟩, htake⟩
  | @array text vs _ h htake => exact ⟨.array vs, ⟨before, _, hsource, hbefore, Json.Spells.array h, trivial⟩, htake⟩

theorem starts_of_ok (hprobed : ∀ slot ∈ shape.slots, slot.Probed) {start result : σ} {source : Source}
    (h : readShape shape start source = .ok result) : ∃ rest, shape.Starts start source result rest := by
  rw [readShape] at h
  split at h
  · rename_i others hskip
    obtain ⟨before, hbefore, rfl⟩ := blank_of_skipBlanks hskip
    split at h
    · cases h
    · rename_i rest hname
      cases h
      obtain ⟨blanks, hblanks, rfl⟩ := (Json.firstName_none_iff _ _).mp hname
      exact ⟨rest, before, _, by simp, hbefore, Spells.object (Json.Spells.noMembers hblanks) List.nodup_nil rfl⟩
    · rename_i hname
      obtain ⟨blanks, hblanks, rfl⟩ := (Json.firstName_some_iff _ _).mp ⟨_, hname⟩
      obtain ⟨text, rest, m, ms, rfl, hspells, hnodup, -, htake⟩ := readMembers_of_ok hprobed h
      exact ⟨rest, before, _, by simp, hbefore,
        Spells.object (Json.spells_blank_members hblanks hspells) hnodup htake⟩
  · rename_i others hskip
    obtain ⟨before, hbefore, rfl⟩ := blank_of_skipBlanks hskip
    obtain ⟨text, rest, vs, rfl, hspells, htake⟩ := readItems_of_ok hprobed h
    exact ⟨rest, before, _, by simp, hbefore, Spells.array hspells (htake _)⟩
  · split at h
    · cases h
    · cases h

theorem readShape_brace (shape : Shape σ) (start : σ) {before : Source} (hbefore : Blank before) (source : Source) :
    readShape shape start (before ++ .char '\x7b' :: source) =
      match Json.firstName source with
      | .error stop => .error stop
      | .ok (none, _) => .ok start
      | .ok (some rest, _) => readMembers shape (Source.width rest + 1) [] rest start := by
  rw [readShape, skipBlanks_append hbefore]
  rfl

theorem readShape_bracket (shape : Shape σ) (start : σ) {before : Source} (hbefore : Blank before) (source : Source) :
    readShape shape start (before ++ .char '[' :: source) = readItems shape.slots 0 source start := by
  rw [readShape, skipBlanks_append hbefore]
  rfl

theorem readShape_starts (hprobed : ∀ slot ∈ shape.slots, slot.Probed) {start result : σ} {source rest : Source}
    (h : shape.Starts start source result rest) : readShape shape start source = .ok result := by
  obtain ⟨before, text, rfl, hbefore, hspells⟩ := h
  cases hspells with
  | @object text ms _ h hnodup htake =>
      rw [List.cons_append, readShape_brace shape start hbefore]
      cases ms with
      | nil =>
          cases htake
          cases h with
          | @noMembers _ blanks hblanks =>
              rw [List.append_assoc, List.singleton_append,
                (Json.firstName_none_iff _ rest).mpr ⟨blanks, hblanks, rfl⟩]
      | cons m ms =>
          obtain ⟨blanks, body, rfl, hblanks, hlength, hread⟩ :=
            readMembers_spells hprobed h hnodup (fun _ _ => List.not_mem_nil) htake
          obtain ⟨unused, hname⟩ := (Json.firstName_some_iff (blanks ++ .char '"' :: (body ++ rest)) _).mpr
            ⟨blanks, hblanks, rfl⟩
          -- The bytes of what is left bound the number of members.
          have hwidth := Source.length_le_width (body ++ rest)
          rw [List.length_append] at hwidth
          rw [List.append_assoc, List.cons_append, hname]
          exact hread _ rest (by omega)
  | array h htake =>
      rw [List.cons_append, readShape_bracket shape start hbefore]
      exact readItems_spells hprobed h htake rest

/-- A text is decoded if it begins with what the shape accepts, whatever follows. -/
theorem takeText_eq_ok_iff (hprobed : ∀ slot ∈ shape.slots, slot.Probed) (start result : σ) (source : Source) :
    shape.takeText start source = .ok result ↔ ∃ rest, shape.Starts start source result rest := by
  rw [takeText, mapError_eq_ok_iff]
  exact ⟨starts_of_ok hprobed, fun ⟨_, hstarts⟩ => readShape_starts hprobed hstarts⟩

end Shape
end RecordSearch
