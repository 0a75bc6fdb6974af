import Mathlib.Data.List.DropRight
import Mathlib.Data.List.TakeWhile
import Backtrack.Text.Layout

/-! The lines of a text. They are what `List.splitOn` cuts a text into at its line ends, so what is known of splitting
at an element holds of them: there is one more than there are line ends, no line has a line end in it, and a place is on
the line whose number is that of the line ends before it, counted from zero. -/

namespace Backtrack.Text

/-! ### Splitting at an element -/

section

variable {α : Type} [DecidableEq α] {a : α}

/-- What comes before the first separator goes before the first part. -/
theorem splitOn_append_of_not_mem {front : List α} (h : a ∉ front) (list : List α) :
    (front ++ list).splitOn a = (list.splitOn a).modifyHead (front ++ ·) := by
  induction front with
  | nil =>
      rw [List.nil_append]
      cases list.splitOn a <;> rfl
  | cons b front ih =>
      rw [List.mem_cons, not_or] at h
      rw [List.cons_append, List.splitOn_cons_eq_if_modifyHead, if_neg (by simpa using Ne.symm h.1), ih h.2,
        List.modifyHead_modifyHead]
      rfl

theorem not_mem_of_mem_splitOn {list part : List α} (h : part ∈ list.splitOn a) : a ∉ part := by
  induction list generalizing part with
  | nil =>
      rw [List.splitOn_nil, List.mem_singleton] at h
      rw [h]
      exact List.not_mem_nil
  | cons b list ih =>
      rw [List.splitOn_cons_eq_if_modifyHead] at h
      by_cases hb : b = a
      · rw [if_pos (by simpa using hb), List.mem_cons] at h
        rcases h with rfl | h
        · exact List.not_mem_nil
        · exact ih h
      · rw [if_neg (by simpa using hb)] at h
        obtain ⟨first, others, hparts⟩ := List.exists_cons_of_ne_nil (List.splitOn_ne_nil a list)
        rw [hparts, List.modifyHead_cons, List.mem_cons] at h
        rw [hparts] at ih
        rcases h with rfl | h
        · rw [List.mem_cons, not_or]
          exact ⟨Ne.symm hb, ih List.mem_cons_self⟩
        · exact ih (List.mem_cons_of_mem first h)

variable (a)

theorem length_splitOn (list : List α) : (list.splitOn a).length = list.count a + 1 := by
  induction list with
  | nil => rfl
  | cons b list ih =>
      rw [List.splitOn_cons_eq_if_modifyHead]
      by_cases hb : b = a
      · rw [if_pos (by simpa using hb), List.length_cons, ih, hb, List.count_cons_self]
      · rw [if_neg (by simpa using hb), List.length_modifyHead, ih, List.count_cons_of_ne hb]

theorem head?_splitOn (list : List α) : (list.splitOn a)[0]? = some (list.takeWhile (· ≠ a)) := by
  induction list with
  | nil => rfl
  | cons b list ih =>
      rw [List.splitOn_cons_eq_if_modifyHead]
      by_cases hb : b = a
      · rw [if_pos (by simpa using hb), List.getElem?_cons_zero, List.takeWhile_cons_of_neg (by simpa using hb)]
      · rw [if_neg (by simpa using hb), List.getElem?_modifyHead_zero, ih,
          List.takeWhile_cons_of_pos (by simpa using hb)]
        rfl

/-- The part in which a place lies has the number of the separators before it. It consists of what stands before the
place, from the last of them on, and of what stands behind it, up to the next. -/
theorem getElem?_splitOn (front behind : List α) :
    ((front ++ behind).splitOn a)[front.count a]? =
      some (front.rtakeWhile (· ≠ a) ++ behind.takeWhile (· ≠ a)) := by
  induction front using List.reverseRecOn generalizing behind with
  | nil => exact head?_splitOn a behind
  | append_singleton front b ih =>
      rw [List.append_assoc, List.singleton_append, List.count_append]
      by_cases hb : b = a
      · rw [hb, List.count_singleton_self, List.splitOn_append_cons_self, List.rtakeWhile_concat_neg _ _ _ (by simp),
          List.getElem?_append_right (by rw [length_splitOn]), length_splitOn, Nat.sub_self, List.nil_append]
        exact head?_splitOn a behind
      · rw [List.count_singleton, if_neg (by simpa using hb), Nat.add_zero, ih,
          List.takeWhile_cons_of_pos (by simpa using hb), List.rtakeWhile_concat_pos _ _ _ (by simpa using hb),
          List.append_assoc, List.singleton_append]

end

/-! ### Lines -/

theorem linesFrom_eq (start text : List Char) : linesFrom start text = text.splitOnPPrepend (· == '\n') start := by
  induction text generalizing start with
  | nil => rw [linesFrom, List.splitOnPPrepend_nil]
  | cons c text ih =>
      rw [linesFrom, List.splitOnPPrepend_cons_eq_if]
      by_cases hc : c = '\n'
      · rw [if_pos hc, if_pos (by simpa using hc), ih, List.splitOnPPrepend_nil_right]
      · rw [if_neg hc, if_neg (by simpa using hc), ih]

theorem lines_eq_splitOn (text : List Char) : lines text = text.splitOn '\n' := by
  rw [lines, linesFrom_eq, List.splitOnPPrepend_nil_right, List.splitOn_eq_splitOnP]

/-- Rows that are each closed by a line end are the lines of a text. -/
theorem lines_flatMap_row {rows : List (List Char)} (hrows : ∀ row ∈ rows, '\n' ∉ row) (rest : List Char) :
    lines (rows.flatMap (· ++ ['\n']) ++ rest) = rows ++ lines rest := by
  rw [lines_eq_splitOn, lines_eq_splitOn]
  induction rows with
  | nil => rfl
  | cons row rows ih =>
      obtain ⟨hrow, hothers⟩ := List.forall_mem_cons.mp hrows
      rw [List.flatMap_cons, List.append_assoc, List.append_assoc, List.singleton_append,
        List.splitOn_append_cons_self_of_not_mem hrow, ih hothers, List.cons_append]

/-- A line has no line end in it. -/
theorem newline_not_mem_of_mem_lines {text line : List Char} (h : line ∈ lines text) : '\n' ∉ line :=
  not_mem_of_mem_splitOn (lines_eq_splitOn text ▸ h)

/-- A place is on the line that has the number of the line ends before it; that line consists of what stands before
the place, from the last of them on, and of what stands behind it up to the next line end. -/
theorem getElem?_lines (front behind : List Char) :
    (lines (front ++ behind))[front.count '\n']? =
      some (front.rtakeWhile (· ≠ '\n') ++ behind.takeWhile (· ≠ '\n')) := by
  rw [lines_eq_splitOn]
  exact getElem?_splitOn '\n' front behind

end Backtrack.Text
