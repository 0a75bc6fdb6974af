import Backtrack.Proofs.Report.Rows
import Backtrack.Proofs.Search.Lines
import Backtrack.Proofs.Stream.Clients

/-! Positions of a stream in a report. A stream counts lines and columns symbol by symbol, a report splits the whole
text into lines. Both agree: the line and the column at which a stream has come by passing symbols name the place of the
next symbol among the lines of the text, so a report on them shows that line and has its caret below that symbol. -/

namespace Backtrack

variable {text : List Char}

namespace Position

/-- The position names the place of symbol number `i` of a text: a line that there is and the place of the symbol on it,
or the end of the line if the line or the text ends with the symbol. -/
structure Locates (p : Position) (text : List Char) (i : Nat) (row : List Char) : Prop where
  pos : 1 ≤ p.line
  le : p.line ≤ (Text.lines text).length
  shown : (Text.lines text)[p.line - 1]? = some row
  inside : ∀ c, text[i]? = some c → c ≠ '\n' → row[p.column]? = some c
  behind : i = text.length ∨ text[i]? = some '\n' → p.column = row.length

theorem HasRoom.exists_locates (hroom : start.HasRoom text) {i : Nat} (hi : i ≤ text.length) :
    ∃ row, (start.along text i).Locates text i row := by
  obtain ⟨hnumber, -⟩ := hroom.along_line hi
  obtain ⟨front, hline, hcolumn⟩ := hroom.getElem?_lines hi
  obtain ⟨hlt, -⟩ := List.getElem?_eq_some_iff.mp hline
  refine ⟨_, by omega, by omega, hline, fun c hget hc => ?_, fun hend => ?_⟩
  · obtain ⟨hin, rfl⟩ := List.getElem?_eq_some_iff.mp hget
    rw [hcolumn, List.drop_eq_getElem_cons hin, List.takeWhile_cons_of_pos (by simpa using hc),
      List.getElem?_append_right (Nat.le_refl _), Nat.sub_self, List.getElem?_cons_zero]
  · have hrest : (text.drop i).takeWhile (· ≠ '\n') = [] := by
      rcases hend with hnone | hnewline
      · rw [List.drop_eq_nil_of_le hnone.ge, List.takeWhile_nil]
      · obtain ⟨hin, hget⟩ := List.getElem?_eq_some_iff.mp hnewline
        rw [List.drop_eq_getElem_cons hin, hget, List.takeWhile_cons_of_neg (by simp)]
    rw [hrest, List.append_nil, hcolumn]

/-- The report on a place shows its line with the caret below its column. -/
theorem Locates.pointsTo {p : Position} {i : Nat} {row : List Char} (h : p.Locates text i row) :
    Context.PointsTo (Context.render text p.line p.column) p.line row p.column :=
  Context.renderLines_pointsTo (fun _ hl => Text.newline_not_mem_of_mem_lines hl) h.pos h.shown p.column

end Position

namespace Stream

/-- Where the reader does not fail and the counters have room, symbols are passed one after another. -/
theorem times_advance_along {p : Position} (hroom : p.HasRoom text) (count : Nat) {n : Nat} {s : Stream}
    (hvalid : s.source.Valid) (hreliable : s.source.Reliable) (htext : s.source.text = text)
    (hposition : s.position = p.along text n) (hcursor : s.source.cursor = p.index + n)
    (hle : n + count ≤ text.length - p.index + 1) (journal : Journal) :
    (Action.times advance count s journal).result = .ok () ∧
      (Action.times advance count s journal).state.position = p.along text (n + count) := by
  induction count generalizing n s journal with
  | zero => exact ⟨rfl, hposition⟩
  | succ count ih =>
      have hn : n ≤ text.length - p.index := by omega
      have hindex := hroom.index_along (Nat.le_succ_of_le hn)
      obtain ⟨hlimit, -⟩ := hroom n hn
      rcases Source.read_of_reliable hvalid hreliable journal with
        ⟨source, journal', hread, hsame, hafter, hnext⟩ | ⟨-, hfull⟩
      · have hadvance : advance s journal =
            ⟨.ok (), { s with source := source, position := p.along text (n + 1) }, journal'⟩ := by
          rw [advance_of_read hread, pass_eq, hposition, hcursor, htext, hroom.advance hn]
          rfl
        have hrest := ih (s := { s with source := source, position := p.along text (n + 1) }) hsame.valid hafter
          (hsame.text.trans htext) rfl (hnext.trans (by omega)) (by omega) journal'
        rw [Nat.add_right_comm, Nat.add_assoc] at hrest
        rw [Action.times, Action.bind, hadvance]
        exact hrest
      · omega

/-- Positions and reports agree. After `i` symbols of a text that memory can hold, and of which there are as many, a new
stream is at index `i`, and its line and its column name the place of the next symbol among the lines of the text. The
report on them can be drawn, and it shows that line and has its caret below that place. -/
theorem positions_agree {s : Stream} (hfresh : s.IsFresh text) (hreliable : s.source.Reliable)
    (hlength : text.length ≤ allocationLimit) {i : Nat} (hi : i ≤ text.length) (journal : Journal) :
    let o := Action.times advance i s journal
    let p := o.state.position
    let report := Context.render text p.line p.column
    o.result = .ok () ∧ p.index = i ∧ (∃ row, p.Locates text i row ∧ Context.PointsTo report p.line row p.column) ∧
      report ≠ [] ∧ Context.render? text p.line p.column = .ok report := by
  intro o p report
  have hlimit : allocationLimit + 1 < counterLimit := by decide
  have hroom : Position.start.HasRoom text := Position.hasRoom_start (by omega)
  have hstart : Position.start.index = 0 := rfl
  obtain ⟨hresult, hposition⟩ : o.result = .ok () ∧ p = Position.start.along text (0 + i) :=
    times_advance_along (n := 0) hroom i (hfresh.valid_of_reliable hreliable) hreliable hfresh.text_eq hfresh.position
      hfresh.cursor (by omega) journal
  rw [Nat.zero_add] at hposition
  have hindex : p.index = i := by
    rw [hposition, hroom.index_along (by omega), hstart, Nat.zero_add]
  obtain ⟨row, hlocates⟩ : ∃ row, p.Locates text i row := by
    rw [hposition]
    exact hroom.exists_locates hi
  have hpoints : Context.PointsTo report p.line row p.column := hlocates.pointsTo
  have hcolumn : p.column ≤ allocationLimit := by
    obtain ⟨-, hbound⟩ := Position.along_start_le text i
    have hpos := hlocates.pos
    rw [hposition] at hpos ⊢
    omega
  have hdrawn : Context.render? text p.line p.column = .ok report := by
    rw [Context.render?, if_neg]
    rw [Bool.and_eq_true, decide_eq_true_eq, not_and]
    exact fun _ => Nat.not_lt.mpr hcolumn
  exact ⟨hresult, hindex, ⟨row, hlocates, hpoints⟩, hpoints.ne_nil, hdrawn⟩

/-- Behind an empty line, at the second of two characters that take two bytes each. -/
theorem positions_agree_behind_empty_line :
    let s := ofSource (.ofText ['a', '\n', '\n', '\u00e9', '\u00df'] (some 1)) "text" false
    let o := Action.times advance 4 s #[]
    o.state.position = ⟨4, 3, 1⟩ ∧
      Context.render? ['a', '\n', '\n', '\u00e9', '\u00df'] 3 1 =
        .ok "--|--\n1 | a\n2 | \n3 | \u00e9\u00df\n  |  ^\n--|--\n".toList ∧
      ∃ row, o.state.position.Locates ['a', '\n', '\n', '\u00e9', '\u00df'] 4 row := by
  intro s o
  have hfresh : s.IsFresh ['a', '\n', '\n', '\u00e9', '\u00df'] := ⟨.inl ⟨some 1, rfl⟩, rfl, 0, rfl⟩
  obtain ⟨-, -, ⟨row, hlocates, -⟩, -⟩ := positions_agree hfresh ⟨rfl, rfl⟩ (by decide) (i := 4) (by decide) #[]
  exact ⟨by decide +kernel, by decide +kernel, row, hlocates⟩

end Stream

end Backtrack
