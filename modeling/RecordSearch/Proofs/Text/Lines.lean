import Mathlib.Data.List.Basic
import RecordSearch.Text.Lines

/-!
# Texts in lines

A text has its lines back, whether a line feed ends them or a carriage return and a line feed, and where blank lines
stand between them.

* `LineEnd`: what ends a line; `Plain`: a line that is not blank, and that can be told from its end.
* `InLines`: the text has the given lines in order, with any number of blank lines before, between and after them.
* `lines_ended`, `lines_open`: the first line of a text, and a line that nothing ends.
* `filter_lines`: the lines of such a text that are not blank are the given ones.
* `inLines_intercalate`: lines joined by what ends them.
-/

namespace RecordSearch.Text

/-- What ends a line. -/
inductive LineEnd : List Char → Prop
  | feed : LineEnd ['\n']
  | returnFeed : LineEnd ['\r', '\n']

/-- The line has characters, none of them a line feed, and the last one no carriage return. -/
structure Plain (line : List Char) : Prop where
  nonempty : line ≠ []
  noFeed : '\n' ∉ line
  noReturn : line.getLast? ≠ some '\r'

/-- The text has the lines in order, with blank lines anywhere around them.  The last line need not be ended. -/
inductive InLines : List (List Char) → List Char → Prop
  | empty : InLines [] []
  | last (line : List Char) : InLines [line] line
  | blank {found : List (List Char)} {text ending : List Char}
      (hending : LineEnd ending)
      (h : InLines found text) :
      InLines found (ending ++ text)
  | line (line : List Char) {found : List (List Char)} {text ending : List Char}
      (hending : LineEnd ending)
      (h : InLines found text) :
      InLines (line :: found) (line ++ ending ++ text)

variable {line ending text : List Char}

theorem linesAfter_nil (begun : List Char) :
    linesAfter begun [] = if begun.isEmpty then [] else [begun.reverse] := rfl

theorem linesAfter_feed (begun rest : List Char) :
    linesAfter begun ('\n' :: rest) = dropReturn begun.reverse :: linesAfter [] rest := rfl

/-- Characters other than a line feed belong to the line that was begun. -/
theorem linesAfter_append (begun : List Char) (hline : '\n' ∉ line) (rest : List Char) :
    linesAfter begun (line ++ rest) = linesAfter (line.reverse ++ begun) rest := by
  induction line generalizing begun with
  | nil => rfl
  | cons c cs ih =>
      rw [List.mem_cons, not_or] at hline
      have hcs := ih (c :: begun) hline.2
      rw [List.cons_append, linesAfter, hcs, List.reverse_cons, List.append_assoc]
      · rfl
      · exact Ne.symm hline.1

theorem lines_closed (hline : '\n' ∉ line) (rest : List Char) :
    lines (line ++ '\n' :: rest) = dropReturn line :: lines rest := by
  rw [lines, linesAfter_append [] hline, linesAfter_feed, List.append_nil, List.reverse_reverse, lines]

theorem lines_open (hline : '\n' ∉ line) (hnonempty : line ≠ []) : lines line = [line] := by
  have happend := linesAfter_append [] hline []
  rw [List.append_nil, List.append_nil] at happend
  rw [lines, happend, linesAfter_nil, List.reverse_reverse, if_neg]
  simpa using hnonempty

/-- A line feed ends a line, and takes a carriage return along that does not belong to it. -/
theorem lines_ended (hline : '\n' ∉ line) (hreturn : line.getLast? ≠ some '\r') (hending : LineEnd ending)
    (rest : List Char) : lines (line ++ ending ++ rest) = line :: lines rest := by
  cases hending with
  | feed =>
      have hkept : dropReturn line = line := if_neg hreturn
      rw [List.append_assoc, List.singleton_append, lines_closed hline, hkept]
  | returnFeed =>
      have hreturned : '\n' ∉ line ++ ['\r'] := by
        simp [hline]
      have hdropped : dropReturn (line ++ ['\r']) = line := by
        rw [dropReturn, if_pos List.getLast?_concat, List.dropLast_concat]
      have htext : line ++ ['\r', '\n'] ++ rest = (line ++ ['\r']) ++ '\n' :: rest := by
        simp
      rw [htext, lines_closed hreturned, hdropped]

theorem filter_cons_of_plain (hline : Plain line) (others : List (List Char)) :
    (line :: others).filter (!·.isEmpty) = line :: others.filter (!·.isEmpty) := by
  have hkept : (!line.isEmpty) = true := by
    simp [hline.nonempty]
  rw [List.filter_cons, if_pos hkept]

/-- The lines of a text that are not blank are those that it was made of. -/
theorem filter_lines {found : List (List Char)} (h : InLines found text) (hplain : ∀ line ∈ found, Plain line) :
    (lines text).filter (!·.isEmpty) = found := by
  induction h with
  | empty => rfl
  | last line =>
      have hline := hplain line (List.mem_singleton_self line)
      rw [lines_open hline.noFeed hline.nonempty]
      exact filter_cons_of_plain hline []
  | @blank found text ending hending h ih =>
      have hblank : lines (ending ++ text) = [] :: lines text :=
        @lines_ended [] ending (by simp) (by simp) hending text
      rw [hblank, List.filter_cons_of_neg (by simp), ih hplain]
  | @line line found text ending hending h ih =>
      have hline := hplain line List.mem_cons_self
      have hothers := ih fun other hother => hplain other (List.mem_cons_of_mem _ hother)
      rw [lines_ended hline.noFeed hline.noReturn hending, filter_cons_of_plain hline, hothers]

/-- Lines are in the text that joins them by what ends a line. -/
theorem inLines_intercalate (hending : LineEnd ending) (found : List (List Char)) :
    InLines found (ending.intercalate found) := by
  induction found with
  | nil => exact .empty
  | cons line rest ih =>
      cases rest with
      | nil =>
          rw [List.intercalate_singleton]
          exact .last line
      | cons next others =>
          rw [List.intercalate_cons_cons]
          exact .line line hending ih

end RecordSearch.Text
