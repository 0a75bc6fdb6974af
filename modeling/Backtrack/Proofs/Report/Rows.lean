import Backtrack.Proofs.Text.Decimal
import Backtrack.Proofs.Text.Lines
import Backtrack.Report

/-! The rows of a report on a line of a text. Between two borders stand the lines around it, each behind its number, and
below the line itself stands the caret. The numbers are as wide as the last one, which has the most digits, so the text
of every line begins at the same place, and the caret is as far behind that place as its column says. -/

namespace Backtrack

namespace Context

open Text (lines decimal)

variable {width line column number : Nat}

/-- What stands before a line: its number and a rule. -/
def gutter (width number : Nat) : List Char :=
  (decimal number).leftpad width ' ' ++ [' ', '|', ' ']

/-- The row that has the caret. -/
def caretLine (width column : Nat) : List Char :=
  List.replicate width ' ' ++ [' ', '|', ' '] ++ List.replicate column ' ' ++ ['^']

def border (width : Nat) : List Char :=
  List.replicate (width + 1) '-' ++ ['|', '-', '-']

/-- The rows for lines numbered from `number` on. -/
def shownRows (width line column number : Nat) : List (List Char) → List (List Char)
  | [] => []
  | shown :: rest =>
    (gutter width number ++ shown) :: (if number = line then [caretLine width column] else []) ++
      shownRows width line column (number + 1) rest

/-- All rows of a report on a line: the lines around it between two borders. -/
def contextRows (text : List (List Char)) (line column : Nat) : List (List Char) :=
  let first := max (line - margin) 1
  let last := min (line + margin) text.length
  let width := (decimal last).length
  border width ::
    (shownRows width line column first ((text.drop (first - 1)).take (last + 1 - first)) ++ [border width])

/-! ### The rows as lines -/

theorem newline_not_mem_gutter (width number : Nat) : '\n' ∉ gutter width number := by
  simp [gutter, List.leftpad, Text.not_mem_decimal]

theorem newline_not_mem_border (width : Nat) : '\n' ∉ border width := by
  simp [border]

theorem newline_not_mem_shownRows {shown : List (List Char)} (hshown : ∀ l ∈ shown, '\n' ∉ l) :
    ∀ row ∈ shownRows width line column number shown, '\n' ∉ row := by
  induction shown generalizing number with
  | nil =>
      intro row hrow
      cases hrow
  | cons first shown ih =>
      obtain ⟨hfirst, hothers⟩ := List.forall_mem_cons.mp hshown
      intro row hrow
      rw [shownRows, List.cons_append, List.mem_cons, List.mem_append] at hrow
      rcases hrow with rfl | hcaret | hrow
      · rw [List.mem_append, not_or]
        exact ⟨newline_not_mem_gutter width number, hfirst⟩
      · obtain ⟨-, rfl⟩ : number = line ∧ row = caretLine width column := by simpa using hcaret
        simp [caretLine]
      · exact ih hothers row hrow

theorem newline_not_mem_contextRows {text : List (List Char)} (htext : ∀ l ∈ text, '\n' ∉ l) (line column : Nat) :
    ∀ row ∈ contextRows text line column, '\n' ∉ row := by
  intro row hrow
  rw [contextRows, List.mem_cons, List.mem_append, List.mem_singleton] at hrow
  rcases hrow with rfl | hrow | rfl
  · exact newline_not_mem_border _
  · exact newline_not_mem_shownRows (fun l hl => htext l (List.mem_of_mem_drop (List.mem_of_mem_take hl))) row hrow
  · exact newline_not_mem_border _

theorem rows_eq_flatMap (width line column number : Nat) (shown : List (List Char)) :
    rows width line column number shown = (shownRows width line column number shown).flatMap (· ++ ['\n']) := by
  induction shown generalizing number with
  | nil => rfl
  | cons first shown ih =>
      rw [rows, shownRows, ih, List.cons_append, List.flatMap_cons, List.flatMap_append, List.append_assoc]
      split_ifs <;> simp [row, gutter, caretRow, caretLine]

/-- A report consists of its rows, each closed by a line end. -/
theorem renderLines_eq_flatMap {text : List (List Char)} (hline : hasLine text line = true) (column : Nat) :
    renderLines text line column = (contextRows text line column).flatMap (· ++ ['\n']) := by
  have hseparator (width : Nat) : separator width = border width ++ ['\n'] := by
    simp [separator, border]
  rw [renderLines, hline, Bool.not_true, if_neg Bool.false_ne_true, contextRows, List.flatMap_cons, List.flatMap_append,
    List.flatMap_singleton, ← rows_eq_flatMap, ← hseparator, List.append_assoc]

theorem lines_renderLines {text : List (List Char)} (htext : ∀ l ∈ text, '\n' ∉ l) (hline : hasLine text line = true)
    (column : Nat) : lines (renderLines text line column) = contextRows text line column ++ [[]] := by
  rw [renderLines_eq_flatMap hline, ← List.append_nil (List.flatMap _ _),
    Text.lines_flatMap_row (newline_not_mem_contextRows htext line column)]
  rfl

/-! ### The row of a line and the caret below it -/

theorem length_gutter (h : (decimal number).length ≤ width) : (gutter width number).length = width + 3 := by
  rw [gutter, List.length_append, List.length_leftpad, Nat.max_eq_left h]
  rfl

/-- The line in question is shown behind its number, and the row below it has the caret. -/
theorem getElem?_shownRows {shown : List (List Char)} {j : Nat} {l : List Char} (h : shown[j]? = some l)
    (width number column : Nat) :
    (shownRows width (number + j) column number shown)[j]? = some (gutter width (number + j) ++ l) ∧
      (shownRows width (number + j) column number shown)[j + 1]? = some (caretLine width column) := by
  induction j generalizing shown number with
  | zero =>
      obtain ⟨others, rfl⟩ : ∃ others, shown = l :: others := by
        cases shown with
        | nil => cases h
        | cons first others => exact ⟨others, congrArg (· :: others) (Option.some.inj h)⟩
      rw [Nat.add_zero, shownRows, if_pos rfl]
      exact ⟨rfl, rfl⟩
  | succ j ih =>
      cases shown with
      | nil => cases h
      | cons first others =>
          rw [List.getElem?_cons_succ] at h
          -- the rows before the line in question have no caret between them
          have hrest := ih h (number + 1)
          rw [Nat.add_right_comm, Nat.add_assoc] at hrest
          rw [shownRows, if_neg (by omega)]
          exact hrest

/-- The report shows the line behind its number, and in the row below it stands the caret, as far behind the beginning
of the line as the column says. -/
def PointsTo (report : List Char) (number : Nat) (line : List Char) (column : Nat) : Prop :=
  ∃ r width blanks, (lines report)[r]? = some (gutter width number ++ line) ∧
    (lines report)[r + 1]? = some (blanks ++ ['^']) ∧ '^' ∉ blanks ∧
      blanks.length = (gutter width number).length + column

theorem PointsTo.ne_nil {report l : List Char} (h : PointsTo report number l column) : report ≠ [] := by
  rintro rfl
  obtain ⟨r, width, blanks, -, hcaret, -⟩ := h
  cases hcaret

/-- A line that there is is shown with a caret in the column. -/
theorem renderLines_pointsTo {text : List (List Char)} (htext : ∀ l ∈ text, '\n' ∉ l) (hpos : 1 ≤ line)
    {l : List Char} (hl : text[line - 1]? = some l) (column : Nat) :
    PointsTo (renderLines text line column) line l column := by
  obtain ⟨hlt, -⟩ := List.getElem?_eq_some_iff.mp hl
  have hline : hasLine text line = true := by
    simp [hasLine]
    omega
  have hlines := lines_renderLines htext hline column
  dsimp only [contextRows] at hlines
  generalize hfirst : max (line - margin) 1 = first at hlines
  generalize hlast : min (line + margin) text.length = last at hlines
  have hle : line ≤ last := by omega
  have hshown : ((text.drop (first - 1)).take (last + 1 - first))[line - first]? = some l := by
    rw [List.getElem?_take_of_lt (by omega), List.getElem?_drop, ← hl]
    congr 1
    omega
  obtain ⟨hrow, hcaret⟩ := getElem?_shownRows hshown (decimal last).length first column
  rw [Nat.add_sub_of_le (by omega)] at hrow hcaret
  refine ⟨line - first + 1, (decimal last).length,
    List.replicate (decimal last).length ' ' ++ [' ', '|', ' '] ++ List.replicate column ' ', ?_, ?_, ?_, ?_⟩
  · rw [hlines, List.cons_append, List.getElem?_cons_succ, List.append_assoc,
      List.getElem?_append_left (List.getElem?_eq_some_iff.mp hrow).1, hrow]
  · rw [hlines, List.cons_append, List.getElem?_cons_succ, List.append_assoc,
      List.getElem?_append_left (List.getElem?_eq_some_iff.mp hcaret).1, hcaret]
    rfl
  · simp
  · rw [length_gutter (Text.length_decimal_mono hle)]
    simp
    omega

end Context

end Backtrack
