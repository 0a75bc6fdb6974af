import Backtrack.Proofs.Search.Places
import Backtrack.Proofs.Text.Lines
import Backtrack.Proofs.Text.Lowercase
import Backtrack.Search

/-! Positions and lines. A position that is reached from the start names the line on which its place is, and its column
is the number of characters before the place on that line. -/

namespace Backtrack

variable {text : List Char} {n : Nat}

namespace Position

theorem along_start_le (text : List Char) (n : Nat) :
    (start.along text n).index ≤ n ∧ (start.along text n).line + (start.along text n).column ≤ n + 1 := by
  induction n with
  | zero => exact ⟨Nat.le_refl 0, Nat.le_refl 1⟩
  | succ n ih =>
      rw [along]
      unfold Position.advance Position.next
      split_ifs <;> dsimp only <;> omega

/-- A text that is shorter than the counters can count leaves them room. -/
theorem hasRoom_start (h : text.length + 1 < counterLimit) : start.HasRoom text := by
  intro n hn
  have hlength : n ≤ text.length := hn
  obtain ⟨hindex, hline⟩ := along_start_le text n
  refine ⟨?_, ?_, ?_⟩ <;> omega

/-- A position on the way through a text is on the line of its place, as far from the beginning as its column says. -/
theorem HasRoom.along_line (h : start.HasRoom text) (hn : n ≤ text.length) :
    (start.along text n).line = (text.take n).count '\n' + 1 ∧
      (start.along text n).column = ((text.take n).rtakeWhile (· ≠ '\n')).length := by
  induction n with
  | zero => exact ⟨rfl, rfl⟩
  | succ n ih =>
      obtain ⟨hline, hcolumn⟩ := ih (Nat.le_of_succ_le hn)
      have hsymbol : Symbol.ofText text n = .char text[n] := by
        rw [Symbol.ofText, List.getElem?_eq_getElem hn]
        rfl
      have hnext : start.along text (n + 1) = (start.along text n).next (.char text[n]) := by
        rw [h.along_succ (Nat.le_of_succ_le hn), ← hsymbol]
        exact congrArg (fun i => (start.along text n).next (.ofText text i)) (Nat.zero_add n)
      rw [List.take_succ_eq_append_getElem hn, List.count_append, hnext, next]
      by_cases hend : text[n] = '\n'
      · rw [hend, if_pos (by decide), List.rtakeWhile_concat_neg _ _ _ (by simp)]
        exact ⟨by rw [hline, List.count_singleton_self], rfl⟩
      · rw [if_neg (by simpa [Symbol.isLineTerminator] using hend),
          List.rtakeWhile_concat_pos _ _ _ (by simpa using hend)]
        refine ⟨?_, ?_⟩
        · rw [hline, List.count_singleton, if_neg (by simpa using hend)]
        · rw [hcolumn, List.length_append, List.length_singleton]

/-- The line of a place has what stands before the place, as many characters as the column says, and behind it what
follows up to the next line end. -/
theorem HasRoom.getElem?_lines (h : start.HasRoom text) (hn : n ≤ text.length) :
    ∃ front, (Text.lines text)[(start.along text n).line - 1]? = some (front ++ (text.drop n).takeWhile (· ≠ '\n')) ∧
      (start.along text n).column = front.length := by
  obtain ⟨hline, hcolumn⟩ := h.along_line hn
  have hlines := Text.getElem?_lines (text.take n) (text.drop n)
  rw [List.take_append_drop] at hlines
  refine ⟨_, ?_, hcolumn⟩
  rw [hline, Nat.add_sub_cancel, hlines]

end Position

/-! ### Words without line ends -/

theorem foldWord_ne_nil {word : List Char} (h : word ≠ []) (caseFold : Bool) : foldWord word caseFold ≠ [] := by
  cases caseFold with
  | false => exact h
  | true =>
      obtain ⟨c, others, rfl⟩ := List.exists_cons_of_ne_nil h
      exact List.cons_ne_nil _ _

theorem newline_not_mem_foldWord {word : List Char} (h : '\n' ∉ word) (caseFold : Bool) :
    '\n' ∉ foldWord word caseFold := by
  cases caseFold with
  | false => exact h
  | true =>
      intro hmem
      obtain ⟨c, hc, hfold⟩ := List.mem_filterMap.mp hmem
      rw [Text.foldCase_eq_newline (Option.some.inj hfold)] at hc
      exact h hc

/-- A word without line ends stands where the text has none. -/
theorem Occurs.newline_not_mem {caseFold : Bool} {text word : List Char} {i : Nat} (h : Occurs caseFold text word i)
    (hword : '\n' ∉ word) : '\n' ∉ (text.drop i).take word.length := by
  intro hmem
  obtain ⟨j, hj, hget⟩ := List.getElem_of_mem hmem
  rw [List.getElem_take, List.getElem_drop] at hget
  rw [List.length_take] at hj
  have hseen : (Symbol.ofText text (i + j)).seen caseFold = .char '\n' := by
    have hj' : i + j < text.length := by
      have := h.1
      omega
    rw [Symbol.ofText, List.getElem?_eq_getElem hj', hget]
    cases caseFold with
    | false => rfl
    | true => exact congrArg Symbol.char Text.foldCase_newline
  rw [h.2 j (by omega)] at hseen
  have hfound : word[j]? = some '\n' := by
    cases hcase : word[j]? with
    | none => simp [Symbol.ofText, hcase] at hseen
    | some c => simpa [Symbol.ofText, hcase] using hseen
  exact hword (List.mem_of_getElem? hfound)

end Backtrack
