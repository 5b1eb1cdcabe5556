import Mathlib

namespace NftData

/-! # Files of lines

Rows are appended to a file, each as one line. An append may be cut off after any of its
bytes, which leaves complete rows, perhaps a last one without its line break, or a part of a
row. -/

open List

namespace LineFile

section Lines

variable {Byte : Type} [DecidableEq Byte] (newline : Byte)

/-- The lines of a file. A line break at the end starts no further line. -/
def lines : List Byte → List (List Byte)
  | [] => []
  | byte :: rest =>
      if byte = newline then
        [] :: lines rest
      else
        match lines rest with
        | [] => [[byte]]
        | line :: more => (byte :: line) :: more

variable {line : List Byte}

theorem lines_append_newline (unbroken : newline ∉ line) (rest : List Byte) :
    lines newline (line ++ newline :: rest) = line :: lines newline rest := by
  induction line with
  | nil => exact if_pos rfl
  | cons byte line induction =>
      rw [mem_cons, not_or] at unbroken
      rw [cons_append, lines, if_neg (Ne.symm unbroken.1), induction unbroken.2]

theorem lines_of_unbroken (nonempty : line ≠ []) (unbroken : newline ∉ line) :
    lines newline line = [line] := by
  induction line with
  | nil => exact absurd rfl nonempty
  | cons byte line induction =>
      rw [mem_cons, not_or] at unbroken
      rw [lines, if_neg (Ne.symm unbroken.1)]
      cases line with
      | nil => rfl
      | cons next line => rw [induction (cons_ne_nil _ _) unbroken.2]

def AtLineStart (content : List Byte) : Prop :=
  content = [] ∨ content.getLast? = some newline

end Lines

section Rows

variable {Byte Row : Type} (newline : Byte) (encode : Row → List Byte)

def appended (rows : List Row) : List Byte :=
  rows.flatMap fun row => encode row ++ [newline]

theorem appended_cons (row : Row) (rows : List Row) :
    appended newline encode (row :: rows) =
      encode row ++ newline :: appended newline encode rows := by
  rw [appended, flatMap_cons, List.append_assoc, singleton_append, appended]

theorem appended_append (first second : List Row) :
    appended newline encode (first ++ second) =
      appended newline encode first ++ appended newline encode second :=
  flatMap_append

/-- The rows whose text is complete among the first bytes. -/
def written : List Row → (bytes : Nat) → List Row
  | [], _ => []
  | row :: rows, bytes =>
      if (encode row).length ≤ bytes then
        row :: written rows (bytes - ((encode row).length + 1))
      else
        []

def Torn : List Row → (bytes : Nat) → Prop
  | [], _ => False
  | row :: rows, bytes =>
      if (encode row).length ≤ bytes then
        Torn rows (bytes - ((encode row).length + 1))
      else
        0 < bytes

/-- A file that holds the given rows, of which the last may lack its line break. -/
def Shows (content : List Byte) (rows : List Row) : Prop :=
  content = appended newline encode rows ∨ content ++ [newline] = appended newline encode rows

/-- A row that is not complete. -/
structure TornRow (row : Row) (text : List Byte) : Prop where
  isPrefix : text <+: encode row
  nonempty : text ≠ []
  incomplete : text ≠ encode row

/-- How rows are encoded: on one line that is not empty. -/
structure OneLine : Prop where
  nonempty : ∀ row, encode row ≠ []
  unbroken : ∀ row, newline ∉ encode row

variable {newline} {encode}

theorem written_zero (oneLine : OneLine newline encode) (rows : List Row) :
    written encode rows 0 = [] := by
  cases rows with
  | nil => rfl
  | cons row rows =>
      rw [written, if_neg]
      exact not_le.mpr (length_pos_of_ne_nil (oneLine.nonempty row))

theorem take_line {row : Row} {bytes : Nat} (longer : (encode row).length < bytes)
    (rest : List Byte) :
    (encode row ++ newline :: rest).take bytes =
      encode row ++ newline :: rest.take (bytes - ((encode row).length + 1)) := by
  have remaining : bytes - (encode row).length =
      bytes - ((encode row).length + 1) + 1 := by omega
  rw [take_append, take_of_length_le longer.le, remaining, take_succ_cons]

theorem Shows.cons {content : List Byte} {rows : List Row}
    (shows : Shows newline encode content rows) (row : Row) :
    Shows newline encode (encode row ++ newline :: content) (row :: rows) := by
  rcases shows with whole | unterminated
  · apply Or.inl
    rw [appended_cons, whole]
  · apply Or.inr
    rw [appended_cons, ← unterminated, List.append_assoc, cons_append]

section

variable (oneLine : OneLine newline encode)
include oneLine

theorem not_torn_zero (rows : List Row) :
    ¬ Torn encode rows 0 := by
  cases rows with
  | nil => exact fun torn => torn
  | cons row rows =>
      rw [Torn, if_neg]
      · exact lt_irrefl 0
      · exact not_le.mpr (length_pos_of_ne_nil (oneLine.nonempty row))

theorem shows_take_appended (rows : List Row) (bytes : Nat) (whole : ¬ Torn encode rows bytes) :
    Shows newline encode ((appended newline encode rows).take bytes)
      (written encode rows bytes) := by
  induction rows generalizing bytes with
  | nil => exact .inl take_nil
  | cons row rows induction =>
      rw [Torn] at whole
      rw [written, appended_cons]
      split at whole
      · next complete =>
          rw [if_pos complete]
          rcases complete.lt_or_eq with longer | atEnd
          · rw [take_line longer]
            exact (induction _ whole).cons row
          · have noneLeft : bytes - ((encode row).length + 1) = 0 := by omega
            rw [noneLeft, written_zero oneLine, ← atEnd, take_left]
            apply Or.inr
            rw [appended_cons]
            rfl
      · next short =>
          have zero : bytes = 0 := by omega
          rw [if_neg short, zero]
          exact .inl rfl

theorem exists_tornRow (rows : List Row) (bytes : Nat) (torn : Torn encode rows bytes) :
    ∃ row text, TornRow encode row text ∧ (appended newline encode rows).take bytes =
      appended newline encode (written encode rows bytes) ++ text := by
  induction rows generalizing bytes with
  | nil => exact torn.elim
  | cons row rows induction =>
      rw [Torn] at torn
      rw [written, appended_cons]
      split at torn
      · next complete =>
          rw [if_pos complete]
          rcases complete.lt_or_eq with longer | atEnd
          · rcases induction _ torn with ⟨other, text, tornRow, equal⟩
            refine ⟨other, text, tornRow, ?_⟩
            rw [take_line longer, equal, appended_cons, List.append_assoc, cons_append]
          · have noneLeft : bytes - ((encode row).length + 1) = 0 := by omega
            rw [noneLeft] at torn
            exact absurd torn (not_torn_zero oneLine rows)
      · next short =>
          rw [if_neg short]
          refine ⟨row, (encode row).take bytes, ⟨List.take_prefix _ _, ?_, ?_⟩, ?_⟩
          · intro empty
            have length := congrArg List.length empty
            rw [length_take, length_nil] at length
            omega
          · intro whole
            have length := congrArg List.length whole
            rw [length_take] at length
            omega
          · exact take_append_of_le_length (by omega)

theorem lines_appended [DecidableEq Byte] (rows : List Row) (rest : List Byte) :
    lines newline (appended newline encode rows ++ rest) =
      rows.map encode ++ lines newline rest := by
  induction rows with
  | nil => rfl
  | cons row rows induction =>
      rw [appended_cons, List.append_assoc, cons_append,
        lines_append_newline newline (oneLine.unbroken row), induction]
      rfl

end

variable {content : List Byte} {rows : List Row}

theorem Shows.cases (shows : Shows newline encode content rows) :
    content = appended newline encode rows ∨ ∃ before last, rows = before ++ [last] ∧
      content = appended newline encode before ++ encode last := by
  rcases shows with whole | unterminated
  · exact .inl whole
  · refine .inr ?_
    rcases eq_nil_or_concat rows with none_ | ⟨before, last, rfl⟩
    · rw [none_] at unterminated
      exact absurd unterminated (by simp [appended])
    · refine ⟨before, last, concat_eq_append, ?_⟩
      have broken : content ++ [newline] =
          appended newline encode before ++ encode last ++ [newline] := by
        rw [unterminated, concat_eq_append, appended_append, appended_cons,
          List.append_assoc]
        rfl
      exact append_cancel_right broken

theorem lines_of_shows [DecidableEq Byte] (oneLine : OneLine newline encode)
    (shows : Shows newline encode content rows) :
    lines newline content = rows.map encode := by
  rcases shows.cases with whole | ⟨before, last, rfl, rfl⟩
  · have read := lines_appended oneLine rows []
    rwa [append_nil, ← whole, lines, append_nil] at read
  · rw [lines_appended oneLine, lines_of_unbroken newline (oneLine.nonempty last)
      (oneLine.unbroken last), map_append, map_singleton]

theorem Shows.eq_appended (oneLine : OneLine newline encode)
    (shows : Shows newline encode content rows) (lineStart : AtLineStart newline content) :
    content = appended newline encode rows := by
  rcases shows.cases with whole | ⟨before, last, rfl, rfl⟩
  · exact whole
  · rcases lineStart with empty | broken
    · exact absurd (append_eq_nil_iff.mp empty).2 (oneLine.nonempty last)
    · rw [List.getLast?_append_of_ne_nil _ (oneLine.nonempty last)] at broken
      exact absurd (List.mem_of_getLast? broken) (oneLine.unbroken last)

theorem Shows.append (oneLine : OneLine newline encode) {more : List Byte} {others : List Row}
    (shows : Shows newline encode content rows) (lineStart : AtLineStart newline content)
    (moreShows : Shows newline encode more others) :
    Shows newline encode (content ++ more) (rows ++ others) := by
  have whole := shows.eq_appended oneLine lineStart
  rcases moreShows with terminated | unterminated
  · exact .inl (by rw [whole, terminated, appended_append])
  · exact .inr (by rw [List.append_assoc, unterminated, whole, appended_append])

theorem Shows.nil_of_none (shows : Shows newline encode content ([] : List Row)) :
    content = [] := by
  rcases shows.cases with whole | ⟨before, last, impossible, -⟩
  · exact whole
  · exact absurd impossible (by simp)

theorem Shows.rows_eq_nil (oneLine : OneLine newline encode) (shows : Shows newline encode [] rows)
    : rows = [] := by
  have whole := shows.eq_appended oneLine (.inl rfl)
  cases rows with
  | nil => rfl
  | cons row rows =>
      rw [appended_cons] at whole
      exact absurd (append_eq_nil_iff.mp whole.symm).2 (cons_ne_nil _ _)

end Rows

end LineFile

end NftData
