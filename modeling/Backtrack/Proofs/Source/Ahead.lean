import Backtrack.Proofs.Source.Reading

/-! Reading ahead. A number of symbols is read one after another, as far as the reader lets it; how many
they were is what has to be taken back. Wherever reading and taking back lead, what has been retained stays
retained. -/

namespace Backtrack.Source

/-! ### Where reading and taking back lead -/

/-- From one source another one comes of reading and taking back. -/
inductive Leads (s : Source) : Source → Prop
  | refl : Leads s s
  | read {mid : Source} (h : Leads s mid) (journal : Journal) : Leads s (mid.read journal).state
  | takeBack {mid : Source} (h : Leads s mid) (count : Nat) : Leads s (mid.takeBack count)

theorem Leads.trans {s mid after : Source} (h : s.Leads mid) (h' : mid.Leads after) : s.Leads after := by
  induction h' with
  | refl => exact h
  | read _ journal ih => exact ih.read journal
  | takeBack _ count ih => exact ih.takeBack count

theorem Leads.evolves {s after : Source} (h : s.Leads after) : s.Evolves after := by
  induction h with
  | refl => exact .refl s
  | @read mid h journal ih => exact ih.trans (mid.read_evolves journal)
  | takeBack h count ih => exact ih.trans (.takeBack _ count)

/-- What is retained is only added to, and once nothing is left to decode it stays so. -/
structure Retains (s s' : Source) : Prop where
  retained : s.retained ≤ s'.retained
  remaining : s.decoder.remaining = [] → s'.decoder.remaining = []

theorem Retains.trans {s mid after : Source} (h : s.Retains mid) (h' : mid.Retains after) :
    s.Retains after :=
  ⟨h.retained.trans h'.retained, fun hempty => h'.remaining (h.remaining hempty)⟩

theorem read_retains {s : Source} (hvalid : s.Valid) (journal : Journal) :
    s.Retains (s.read journal).state := by
  have hrefill : s.Retains (s.refill journal).state := by
    obtain ⟨history, decoder⟩ := s
    unfold refill
    dsimp only
    split_ifs
    · have hdecodes := @Decoder.next_decodes history.retained decoder hvalid.decoder journal
      generalize decoder.next history.retained journal = o at hdecodes ⊢
      obtain ⟨result, after, journal'⟩ := o
      match result with
      | .ok (some c) =>
          refine ⟨by simp [retained, History.retained, History.push], fun hempty => ?_⟩
          have hdecode := hdecodes.2.2.2
          rw [show decoder.remaining = [] from hempty, Utf8.decode] at hdecode
          cases hdecode
      | .ok none => exact ⟨Nat.le_refl _, hdecodes.1.remaining_eq.trans⟩
      | .error stop => exact ⟨Nat.le_refl _, hdecodes.1.remaining_eq.trans⟩
    · exact ⟨Nat.le_refl _, id⟩
  rw [read_eq, Action.bind]
  generalize s.refill journal = o at hrefill ⊢
  obtain ⟨result, ⟨history, decoder⟩, journal'⟩ := o
  cases result with
  | ok =>
      dsimp only [onHistory, History.next]
      split_ifs <;> exact ⟨hrefill.retained, hrefill.remaining⟩
  | error stop => exact hrefill

theorem Leads.retains {s after : Source} (h : s.Leads after) (hvalid : s.Valid) : s.Retains after := by
  induction h with
  | refl => exact ⟨Nat.le_refl _, id⟩
  | @read mid h journal ih => exact ih.trans (read_retains (h.evolves.same hvalid).valid journal)
  | takeBack h count ih => exact ⟨ih.retained, ih.remaining⟩

theorem take_drop_append {start stop : Nat} {front : List Char} (hle : start ≤ stop) (hstop : stop ≤ front.length)
    (rest : List Char) :
    ((front ++ rest).drop start).take (stop - start) = (front.drop start).take (stop - start) := by
  rw [List.drop_append_of_le_length (hle.trans hstop), List.take_append_of_le_length]
  rw [List.length_drop]
  omega

/-- A range of what is retained is one of the text. -/
theorem range_of_le {s : Source} {start stop : Nat} (hle : start ≤ stop) (hstop : stop ≤ s.retained) :
    s.range start stop = .ok (String.ofList ((s.text.drop start).take (stop - start))) := by
  have hextract : (s.history.chars.extract start stop).toList = (s.text.drop start).take (stop - start) := by
    rw [Array.toList_extract, List.extract_eq_take_drop, Source.text, take_drop_append hle hstop]
  unfold range History.range
  rw [if_pos ⟨hle, hstop⟩, hextract]
  rfl

theorem retained_of_remaining {s : Source} (h : s.decoder.remaining = []) : s.retained = s.text.length := by
  rw [Source.text, h, Utf8.decode, List.append_nil, Array.length_toList]
  rfl

theorem retained_le (s : Source) : s.retained ≤ s.text.length := by
  rw [Source.text, List.length_append, Array.length_toList]
  exact Nat.le_add_right _ _

/-! ### Reading ahead -/

/-- Reads `count` symbols. A read that stops is the end. -/
def readAhead (count : Nat) : Action Source Unit :=
  Action.times ((fun _ => ()) <$> read) count

theorem readAhead_succ (count : Nat) (s : Source) (journal : Journal) :
    readAhead (count + 1) s journal = Action.bind read (fun _ => readAhead count) s journal := by
  show Action.bind (Action.bind read fun _ => Action.pure ()) (fun _ => readAhead count) s journal = _
  unfold Action.bind
  generalize s.read journal = o
  obtain ⟨result, after, journal'⟩ := o
  cases result <;> rfl

theorem readAhead_of_ok {s source : Source} {journal between : Journal} {symbol : Symbol}
    (h : s.read journal = ⟨.ok symbol, source, between⟩) (count : Nat) :
    readAhead (count + 1) s journal = readAhead count source between := by
  rw [readAhead_succ, Action.bind, h]

theorem readAhead_of_error {s source : Source} {journal between : Journal} {stop : Stop}
    (h : s.read journal = ⟨.error stop, source, between⟩) (count : Nat) :
    readAhead (count + 1) s journal = ⟨.error stop, source, between⟩ := by
  rw [readAhead_succ, Action.bind, h]

/-- The cursor moves past every symbol that is delivered, and past nothing else. -/
theorem read_cursor (s : Source) (journal : Journal) :
    match s.read journal with
    | ⟨.ok _, after, _⟩ => after.cursor = s.cursor + 1 ∧ s.cursor < counterLimit
    | ⟨.error (.fault f), after, _⟩ => (∃ reason, f = .io reason) ∧ after.cursor = s.cursor
    | ⟨.error (.breach b), after, _⟩ =>
        b = .counterOverflow ∧ after.cursor = s.cursor ∧ counterLimit ≤ s.cursor := by
  have hrefill := s.refill_cursor journal
  rw [read_eq, Action.bind]
  generalize s.refill journal = o at hrefill ⊢
  obtain ⟨result, ⟨history, decoder⟩, journal'⟩ := o
  obtain ⟨hcursor, -, hfault⟩ := hrefill
  have hlimit : history.cursor = s.cursor := hcursor
  cases result with
  | ok =>
      dsimp only [onHistory, History.next]
      split_ifs with h
      · exact ⟨rfl, hcursor, hlimit ▸ h⟩
      · exact ⟨congrArg (· + 1) hlimit, by omega⟩
  | error stop =>
      obtain ⟨reason, rfl⟩ := hfault stop rfl
      exact ⟨⟨reason, rfl⟩, hcursor⟩

/-- The outcomes of `readAhead count`. `read`: the cursor is `count` symbols further. `failed`: a read on the way has
failed. `full`: the cursor is at its limit. -/
inductive ReadsAhead (s : Source) (journal : Journal) (count : Nat) : Outcome Source Unit → Prop
  | read {after : Source} {journal' : Journal} (hevolves : s.Evolves after)
      (hreading : Journal.Extends (·.isReading) journal journal') (hcursor : after.cursor = s.cursor + count) :
      ReadsAhead s journal count ⟨.ok (), after, journal'⟩
  | failed {reason : String} {after : Source} {journal' : Journal} (hevolves : s.Evolves after)
      (hreading : Journal.Extends (·.isReading) journal journal') (hle : s.cursor ≤ after.cursor)
      (hlt : after.cursor < s.cursor + count) :
      ReadsAhead s journal count ⟨.error (.fault (.io reason)), after, journal'⟩
  | full {after : Source} {journal' : Journal} (hevolves : s.Evolves after)
      (hreading : Journal.Extends (·.isReading) journal journal') (hle : s.cursor ≤ after.cursor)
      (hlt : after.cursor < s.cursor + count) (hlimit : counterLimit ≤ after.cursor) :
      ReadsAhead s journal count ⟨.error (.breach .counterOverflow), after, journal'⟩

theorem ReadsAhead.of_read {s mid : Source} {journal journal' : Journal} {count : Nat}
    {o : Outcome Source Unit} (hevolves : s.Evolves mid)
    (hreading : Journal.Extends (·.isReading) journal journal') (hcursor : mid.cursor = s.cursor + 1)
    (h : mid.ReadsAhead journal' count o) : s.ReadsAhead journal (count + 1) o := by
  cases h with
  | read hevolves' hreading' hcursor' =>
      exact .read (hevolves.trans hevolves') (hreading.trans hreading') (by omega)
  | failed hevolves' hreading' hle hlt =>
      exact .failed (hevolves.trans hevolves') (hreading.trans hreading') (by omega) (by omega)
  | full hevolves' hreading' hle hlt hlimit =>
      exact .full (hevolves.trans hevolves') (hreading.trans hreading') (by omega) (by omega) hlimit

theorem readAhead_readsAhead (count : Nat) (s : Source) (journal : Journal) :
    s.ReadsAhead journal count (readAhead count s journal) := by
  induction count generalizing s journal with
  | zero => exact .read (.refl s) (.refl journal) rfl
  | succ count ih =>
      have hevolves := s.read_evolves journal
      have hreading := s.read_extends journal
      have hcursor := s.read_cursor journal
      rw [readAhead_succ, Action.bind]
      generalize s.read journal = o at hevolves hreading hcursor ⊢
      obtain ⟨result, mid, journal'⟩ := o
      cases result with
      | ok symbol => exact .of_read hevolves hreading hcursor.1 (ih mid journal')
      | error stop =>
          cases stop with
          | fault f =>
              obtain ⟨⟨reason, rfl⟩, hmid⟩ := hcursor
              exact .failed hevolves hreading hmid.ge (by omega)
          | breach b =>
              obtain ⟨rfl, hmid, hlimit⟩ := hcursor
              exact .full hevolves hreading hmid.ge (by omega) (by omega)

theorem ReadsAhead.evolves {s : Source} {journal : Journal} {count : Nat} {o : Outcome Source Unit}
    (h : s.ReadsAhead journal count o) : s.Evolves o.state := by
  cases h <;> assumption

theorem ReadsAhead.extends {s : Source} {journal : Journal} {count : Nat} {o : Outcome Source Unit}
    (h : s.ReadsAhead journal count o) : Journal.Extends (·.isReading) journal o.journal := by
  cases h <;> assumption

theorem Evolves.admits {s s' : Source} (h : s.Evolves s') {count : Nat} :
    s'.Admits count ↔ s.Admits count := by
  unfold Admits
  rw [h.window]

theorem readAhead_leads (count : Nat) (s : Source) (journal : Journal) :
    s.Leads (readAhead count s journal).state := by
  suffices h : ∀ mid journal, s.Leads mid → s.Leads (readAhead count mid journal).state from h s journal .refl
  induction count with
  | zero => exact fun mid journal h => h
  | succ count ih =>
      intro mid journal h
      have hread := h.read journal
      rw [readAhead_succ, Action.bind]
      generalize mid.read journal = o at hread ⊢
      obtain ⟨result, after, journal'⟩ := o
      cases result with
      | ok symbol => exact ih after journal' hread
      | error stop => exact hread

/-- How many symbols are read when `count` of them are read ahead. -/
def sight (s : Source) (journal : Journal) (count : Nat) : Nat :=
  (readAhead count s journal).state.cursor - s.cursor

theorem cursor_readAhead (count : Nat) (s : Source) (journal : Journal) :
    (readAhead count s journal).state.cursor = s.cursor + s.sight journal count := by
  have hahead := readAhead_readsAhead count s journal
  unfold sight
  generalize readAhead count s journal = o at hahead ⊢
  cases hahead with
  | read hevolves hreading hcursor =>
      dsimp only
      omega
  | failed hevolves hreading hle hlt => exact (Nat.add_sub_of_le hle).symm
  | full hevolves hreading hle => exact (Nat.add_sub_of_le hle).symm

theorem sight_le (s : Source) (journal : Journal) (count : Nat) : s.sight journal count ≤ count := by
  have hahead := readAhead_readsAhead count s journal
  unfold sight
  generalize readAhead count s journal = o at hahead ⊢
  cases hahead <;>
    dsimp only <;> omega

end Backtrack.Source
