import Mathlib.Data.List.GetD
import Backtrack.Proofs.Report.Rows

/-! A report on a line of a text as a table. In every row the rule stands in the same column, behind it stands one line
of the text after the other, whole, and the caret is in the column below the character that it points at. The numbers
before the rule are never wider than the last of them, also where the next number of digits begins between the lines
that are shown. -/

namespace Backtrack.Context

open Text (decimal)

variable {width line column number first last : Nat} {text : List (List Char)}

/-- A line of a text behind its number. -/
def numberedRow (width : Nat) (text : List (List Char)) (number : Nat) : List Char :=
  gutter width number ++ text.getD (number - 1) []

/-- The lines of a text from one number to another, each behind its number. -/
def numberedRows (width : Nat) (text : List (List Char)) (first last : Nat) : List (List Char) :=
  (List.range' first (last + 1 - first)).map (numberedRow width text)

/-! ### The rows by their numbers -/

theorem shownRows_eq_flatMap {count : Nat} (hpos : 1 ≤ number) (hcount : number - 1 + count ≤ text.length)
    (width line column : Nat) :
    shownRows width line column number ((text.drop (number - 1)).take count) =
      (List.range' number count).flatMap fun j =>
        numberedRow width text j :: if j = line then [caretLine width column] else [] := by
  induction count generalizing number with
  | zero => rfl
  | succ count ih =>
      have hlt : number - 1 < text.length := by omega
      have hrest := @ih (number + 1) (by omega) (by omega)
      rw [Nat.add_sub_cancel] at hrest
      have hdrop := List.drop_eq_getElem_cons hlt
      rw [Nat.sub_add_cancel hpos] at hdrop
      rw [hdrop, List.take_succ_cons, shownRows, hrest, List.range'_succ, List.flatMap_cons, numberedRow,
        List.getD_eq_getElem _ _ hlt]

theorem flatMap_numberedRow {numbers : List Nat} (h : line ∉ numbers) (width column : Nat) :
    (numbers.flatMap fun j => numberedRow width text j :: if j = line then [caretLine width column] else []) =
      numbers.map (numberedRow width text) := by
  induction numbers with
  | nil => rfl
  | cons j numbers ih =>
      rw [List.mem_cons, not_or] at h
      rw [List.flatMap_cons, if_neg (Ne.symm h.1), ih h.2]
      rfl

/-- The numbers of the lines that are shown, with the line in question between those above and those below it. -/
theorem range'_split (hfirst : first ≤ line) (hlast : line ≤ last) :
    List.range' first (last + 1 - first) =
      List.range' first (line - first) ++ line :: List.range' (line + 1) (last + 1 - (line + 1)) := by
  rw [← List.range'_succ, show last + 1 - first = (line - first) + (last + 1 - (line + 1) + 1) by omega,
    ← List.range'_append_1, Nat.add_sub_of_le hfirst]

theorem numberedRows_split (hfirst : first ≤ line) (hlast : line ≤ last) (width : Nat) (text : List (List Char)) :
    numberedRows width text first last =
      numberedRows width text first line ++ numberedRows width text (line + 1) last := by
  rw [numberedRows, numberedRows, numberedRows, range'_split hfirst hlast, range'_split hfirst (Nat.le_refl line),
    ← List.map_append, List.append_assoc]
  simp

/-- The caret is below the row of the line in question, and there is no other caret. -/
theorem shownRows_eq_numberedRows (hpos : 1 ≤ first) (hfirst : first ≤ line) (hlast : line ≤ last)
    (hlength : last ≤ text.length) (width column : Nat) :
    shownRows width line column first ((text.drop (first - 1)).take (last + 1 - first)) =
      numberedRows width text first line ++ caretLine width column :: numberedRows width text (line + 1) last := by
  have habove : line ∉ List.range' first (line - first) := by
    rw [List.mem_range'_1]
    omega
  have hbelow : line ∉ List.range' (line + 1) (last + 1 - (line + 1)) := by
    rw [List.mem_range'_1]
    omega
  rw [shownRows_eq_flatMap hpos (by omega), range'_split hfirst hlast, List.flatMap_append, List.flatMap_cons,
    flatMap_numberedRow habove, flatMap_numberedRow hbelow, if_pos rfl, numberedRows, numberedRows,
    range'_split hfirst (Nat.le_refl line)]
  simp

/-! ### The columns of a row -/

/-- The first place in a row where a character stands. -/
def FirstAt (row : List Char) (c : Char) (i : Nat) : Prop :=
  row[i]? = some c ∧ c ∉ row.take i

theorem firstAt_append {before : List Char} {c : Char} (h : c ∉ before) (rest : List Char) :
    FirstAt (before ++ c :: rest) c before.length := by
  refine ⟨?_, ?_⟩
  · rw [List.getElem?_append_right (Nat.le_refl _), Nat.sub_self, List.getElem?_cons_zero]
  · rw [List.take_left]
    exact h

theorem firstAt_rule_numberedRow (h : (decimal number).length ≤ width) (text : List (List Char)) :
    FirstAt (numberedRow width text number) '|' (width + 1) := by
  have hplain : '|' ∉ (decimal number).leftpad width ' ' ++ [' '] := by
    simp [List.leftpad, Text.not_mem_decimal]
  have hrow := firstAt_append hplain (' ' :: text.getD (number - 1) [])
  rw [List.length_append, List.length_leftpad, Nat.max_eq_left h, List.append_assoc] at hrow
  rw [numberedRow, gutter, List.append_assoc]
  exact hrow

theorem firstAt_rule_caretLine (width column : Nat) : FirstAt (caretLine width column) '|' (width + 1) := by
  have hplain : '|' ∉ List.replicate width ' ' ++ [' '] := by
    simp
  have hrow := firstAt_append hplain (' ' :: (List.replicate column ' ' ++ ['^']))
  rw [List.length_append, List.length_replicate, List.append_assoc] at hrow
  rw [caretLine, List.append_assoc, List.append_assoc]
  exact hrow

theorem firstAt_rule_border (width : Nat) : FirstAt (border width) '|' (width + 1) := by
  have hplain : '|' ∉ List.replicate (width + 1) '-' := by
    simp
  have hrow := firstAt_append hplain ['-', '-']
  rwa [List.length_replicate] at hrow

theorem firstAt_caret (width column : Nat) : FirstAt (caretLine width column) '^' (width + 3 + column) := by
  have hplain : '^' ∉ List.replicate width ' ' ++ [' ', '|', ' '] ++ List.replicate column ' ' := by
    simp
  have hrow := firstAt_append hplain []
  rwa [List.length_append, List.length_append, List.length_replicate, List.length_replicate] at hrow

theorem getElem?_numberedRow (h : (decimal number).length ≤ width) (text : List (List Char)) (column : Nat) :
    (numberedRow width text number)[width + 3 + column]? = (text.getD (number - 1) [])[column]? := by
  rw [numberedRow, List.getElem?_append_right (by rw [length_gutter h]; omega), length_gutter h,
    Nat.add_sub_cancel_left]

theorem drop_numberedRow (h : (decimal number).length ≤ width) (text : List (List Char)) :
    (numberedRow width text number).drop (width + 3) = text.getD (number - 1) [] := by
  rw [numberedRow, List.drop_left' (length_gutter h)]

/-- Behind the rule the rows have nothing but the lines of the text. -/
theorem map_drop_numberedRows (hpos : 1 ≤ first) (hlength : last ≤ text.length)
    (hwidth : ∀ j, j ≤ last → (decimal j).length ≤ width) :
    (numberedRows width text first last).map (List.drop (width + 3)) =
      (text.drop (first - 1)).take (last + 1 - first) := by
  apply List.ext_getElem?
  intro i
  rw [numberedRows, List.map_map, List.getElem?_map]
  by_cases hi : i < last + 1 - first
  · rw [List.getElem?_range' hi, Option.map_some, Function.comp_apply, Nat.one_mul,
      drop_numberedRow (hwidth (first + i) (by omega)), List.getElem?_take_of_lt hi, List.getElem?_drop,
      List.getD_eq_getElem _ _ (by omega), List.getElem?_eq_getElem (by omega)]
    congr 2
    omega
  · rw [List.getElem?_eq_none (by rw [List.length_range']; omega), List.getElem?_eq_none (by simp; omega)]
    rfl

/-! ### The table -/

/-- The rows of a report on a line of a text, where `first` and `last` are the numbers of the first and the last line
that are shown. -/
structure IsTable (text : List (List Char)) (first line last column : Nat) (rows : List (List Char)) : Prop where
  numbers : 1 ≤ first ∧ first ≤ line ∧ line ≤ last
  /-- Every line that is shown is there, and its number has room before the rule. -/
  shown : ∀ number, first ≤ number → number ≤ last →
    number - 1 < text.length ∧ (decimal number).length ≤ (decimal last).length
  rows_eq : rows = border (decimal last).length :: (numberedRows (decimal last).length text first line ++
    caretLine (decimal last).length column :: (numberedRows (decimal last).length text (line + 1) last ++
      [border (decimal last).length]))
  closed : ∀ row ∈ rows, '\n' ∉ row
  rule : ∀ row ∈ rows, FirstAt row '|' ((decimal last).length + 1)
  lossless : (numberedRows (decimal last).length text first line ++
      numberedRows (decimal last).length text (line + 1) last).map (List.drop ((decimal last).length + 3)) =
    (text.drop (first - 1)).take (last + 1 - first)
  caret : FirstAt (caretLine (decimal last).length column) '^' ((decimal last).length + 3 + column)
  /-- The caret is below the character in the column, if the line is that long. -/
  above : (numberedRow (decimal last).length text line)[(decimal last).length + 3 + column]? =
    (text.getD (line - 1) [])[column]?

theorem isTable_contextRows (htext : ∀ l ∈ text, '\n' ∉ l) (hpos : 1 ≤ line) (hline : line ≤ text.length)
    (column : Nat) :
    IsTable text (max (line - margin) 1) line (min (line + margin) text.length) column
      (contextRows text line column) := by
  have hclosed := newline_not_mem_contextRows htext line column
  generalize hrows : contextRows text line column = rows at hclosed ⊢
  dsimp only [contextRows] at hrows
  -- all that matters of the two bounds is linear arithmetic
  generalize hfirst : max (line - margin) 1 = first at hrows ⊢
  generalize hlast : min (line + margin) text.length = last at hrows ⊢
  have hwidth (j : Nat) (hj : j ≤ last) : (decimal j).length ≤ (decimal last).length := Text.length_decimal_mono hj
  rw [shownRows_eq_numberedRows (by omega) (by omega) (by omega) (by omega), List.append_assoc, List.cons_append]
    at hrows
  have hnumbered {low high : Nat} (hhigh : high ≤ last) :
      ∀ row ∈ numberedRows (decimal last).length text low high, FirstAt row '|' ((decimal last).length + 1) := by
    intro row hrow
    rw [numberedRows, List.mem_map] at hrow
    obtain ⟨j, hj, rfl⟩ := hrow
    rw [List.mem_range'_1] at hj
    exact firstAt_rule_numberedRow (hwidth j (by omega)) text
  refine ⟨by omega, fun j _ hj => ⟨by omega, hwidth j hj⟩, hrows.symm, hclosed, ?_, ?_,
    firstAt_caret _ column, getElem?_numberedRow (hwidth line (by omega)) text column⟩
  · intro row hrow
    simp only [← hrows, List.mem_cons, List.mem_append, List.not_mem_nil, or_false] at hrow
    rcases hrow with rfl | habove | rfl | hbelow | rfl
    · exact firstAt_rule_border _
    · exact hnumbered (by omega) row habove
    · exact firstAt_rule_caretLine _ column
    · exact hnumbered (Nat.le_refl last) row hbelow
    · exact firstAt_rule_border _
  · rw [← numberedRows_split (by omega) (by omega)]
    exact map_drop_numberedRows (by omega) (by omega) hwidth

/-- For every text and every line that it has, the report is a table with the lines from two before it to two behind
it, as far as there are so many; for a line that it does not have there is no report. -/
theorem report_isTable (text : List Char) (line column : Nat) :
    ((line = 0 ∨ (Text.lines text).length < line) → render? text line column = .ok []) ∧
      (1 ≤ line → line ≤ (Text.lines text).length → column ≤ allocationLimit →
        ∃ rows, render? text line column = .ok (rows.flatMap (· ++ ['\n'])) ∧
          IsTable (Text.lines text) (max 1 (line - 2)) line (min (line + 2) (Text.lines text).length) column rows) := by
  refine ⟨fun hline => ?_, fun hpos hline hcolumn => ?_⟩
  · have hnone : hasLine (Text.lines text) line = false := by
      simp [hasLine]
      omega
    rw [render?, hnone, Bool.false_and, if_neg Bool.false_ne_true, render, renderLines, hnone]
    rfl
  · have hhas : hasLine (Text.lines text) line = true := by
      simp [hasLine]
      omega
    have hroom : ¬(allocationLimit < column) := by omega
    refine ⟨contextRows (Text.lines text) line column, ?_, ?_⟩
    · rw [render?, hhas, Bool.true_and, if_neg (by simpa using hroom), render, renderLines_eq_flatMap hhas]
    · rw [Nat.max_comm]
      exact isTable_contextRows (fun l hl => Text.newline_not_mem_of_mem_lines hl) hpos hline column

/-- Around the ninth line the numbers get their second digit. -/
theorem report_isTable_ninth_line :
    let text := "a\nb\nc\nd\ne\nf\ng\nh\nif\nj\nk\nl".toList
    render? text 9 1 =
        .ok "---|--\n 7 | g\n 8 | h\n 9 | if\n   |  ^\n10 | j\n11 | k\n---|--\n".toList ∧
      ∃ rows, render? text 9 1 = .ok (rows.flatMap (· ++ ['\n'])) ∧
        IsTable (Text.lines text) 7 9 11 1 rows := by
  intro text
  refine ⟨by decide +kernel, ?_⟩
  exact (report_isTable text 9 1).2 (by decide) (by decide +kernel) (by decide)

end Backtrack.Context
