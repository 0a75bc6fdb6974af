import Mathlib.Tactic.SplitIfs
import Backtrack.Proofs.Stream.Lookahead
import Backtrack.Proofs.Stream.Moves

/-! The operations of a stream as runs of moves. Unless a counter is full, what an operation has done when it
answers or stops is a run from the state in which it began. -/

namespace Backtrack

theorem Position.advance_cases (p : Position) (symbol : Symbol) :
    p.advance symbol = (p.next symbol, none) ∨
      (p.advance symbol).2 = some .counterOverflow ∧
        (counterLimit ≤ p.index ∨ counterLimit ≤ p.line ∨ counterLimit ≤ p.column) := by
  unfold advance
  by_cases hindex : counterLimit ≤ p.index
  · rw [if_pos hindex]
    exact .inr ⟨rfl, .inl hindex⟩
  · rw [if_neg hindex]
    by_cases hroom : counterLimit ≤ (if symbol.isLineTerminator then p.line else p.column)
    · rw [if_pos hroom]
      refine .inr ⟨rfl, .inr ?_⟩
      split at hroom
      · exact .inl hroom
      · exact .inr hroom
    · rw [if_neg hroom]
      exact .inl rfl

namespace Stream

variable {overrides : Prop}

/-! ### Going forward -/

theorem advance_eq (s : Stream) (journal : Journal) :
    advance s journal = Action.bind (onSource Source.read) pass s journal :=
  rfl

theorem advance_of_read {s : Stream} {journal between : Journal} {symbol : Symbol} {source : Source}
    (h : s.source.read journal = ⟨.ok symbol, source, between⟩) :
    advance s journal = pass symbol { s with source := source } between := by
  rw [advance_eq, Action.bind, onSource_eq, h]

theorem advance_of_read_error {s : Stream} {journal between : Journal} {stop : Stop} {source : Source}
    (h : s.source.read journal = ⟨.error stop, source, between⟩) :
    advance s journal = ⟨.error stop, { s with source := source }, between⟩ := by
  rw [advance_eq, Action.bind, onSource_eq, h]

/-- The outcomes of `advance` by that of `Source.read`. `passed`: the position is the one behind the symbol. `broken`: a
counter of the position is full. `stopped`: the read has stopped. -/
inductive Advances (s : Stream) : Outcome Source Symbol → Outcome Stream Unit → Prop
  | passed {symbol : Symbol} {source : Source} {journal : Journal} :
      Advances s ⟨.ok symbol, source, journal⟩
        ⟨.ok (), { s with source := source, position := s.position.next symbol }, journal⟩
  | broken {symbol : Symbol} {source : Source} {journal : Journal} :
      Advances s ⟨.ok symbol, source, journal⟩
        ⟨.error (.breach .counterOverflow),
          { s with source := source, position := (s.position.advance symbol).1 }, journal⟩
  | stopped {stop : Stop} {source : Source} {journal : Journal} :
      Advances s ⟨.error stop, source, journal⟩ ⟨.error stop, { s with source := source }, journal⟩

theorem advance_advances (s : Stream) (journal : Journal) :
    Advances s (s.source.read journal) (advance s journal) := by
  rw [advance_eq, Action.bind, onSource_eq]
  generalize s.source.read journal = o
  obtain ⟨result, source, journal'⟩ := o
  cases result with
  | ok symbol =>
      have hbroken := @Advances.broken s symbol source journal'
      dsimp only [pass]
      rcases s.position.advance_cases symbol with h | ⟨h, -⟩
      · rw [h]
        exact .passed
      · generalize s.position.advance symbol = moved at h hbroken ⊢
        obtain ⟨position, breach⟩ := moved
        cases h
        exact hbroken
  | error stop => exact .stopped

/-- `o` is an outcome of `count` times `advance`: the marks are those of `s`, the cursor keeps its distance from the
index, and if there is a value the index is `count` further. -/
structure Goes (overrides : Prop) (s : Stream) (journal : Journal) (count : Nat) (o : Outcome Stream Unit) :
    Prop where
  reaches : Reaches overrides s journal o.state o.journal
  marks : o.state.marks = s.marks
  index : o.result = .ok () → o.state.index = s.index + count
  cursor : o.state.source.cursor + s.index = s.source.cursor + o.state.index

theorem advance_goes (s : Stream) (journal : Journal) (hfull : ¬(advance s journal).IsFull) :
    Goes overrides s journal 1 (advance s journal) := by
  have hdelivers := s.source.read_delivers journal
  have hadvances := advance_advances s journal
  generalize s.source.read journal = read at hdelivers hadvances
  generalize advance s journal = o at hadvances hfull ⊢
  cases hadvances with
  | @passed symbol source journal' =>
      cases hdelivers with
      | delivered hevolves hreading hcursor hsymbol =>
          obtain ⟨events, hevents, hall⟩ := hreading
          have hnext : (s.position.next symbol).index = s.index + 1 := by
            unfold Position.next
            split_ifs <;> rfl
          refine ⟨(Move.pass hevolves hcursor hsymbol hall).reaches hevents, rfl, fun _ => hnext, ?_⟩
          have hindex : s.source.cursor + 1 + s.index = s.source.cursor + (s.index + 1) := by omega
          dsimp only
          rw [hcursor]
          exact hindex.trans (congrArg (s.source.cursor + ·) hnext.symm)
  | broken => exact absurd rfl hfull
  | stopped =>
      cases hdelivers with
      | failed hevolves hreading hcursor =>
          obtain ⟨events, hevents, hall⟩ := hreading
          exact ⟨(Move.peek hevolves hcursor hall).reaches hevents, rfl, fun h => (by cases h),
            congrArg (· + s.index) hcursor⟩
      | full hlimit => exact absurd rfl hfull

theorem times_advance_goes (count : Nat) (s : Stream) (journal : Journal)
    (hfull : ¬(advance.times count s journal).IsFull) :
    Goes overrides s journal count (advance.times count s journal) := by
  induction count generalizing s journal with
  | zero => exact ⟨.refl s journal, rfl, fun _ => rfl, rfl⟩
  | succ count ih =>
      rw [Action.times, Action.bind] at hfull ⊢
      have hfirst := @advance_goes overrides s journal
      generalize advance s journal = o at hfirst hfull ⊢
      obtain ⟨result, mid, journal'⟩ := o
      cases result with
      | ok =>
          have hgoes := hfirst (Outcome.not_isFull_of_ok rfl)
          have hrest := ih mid journal' hfull
          refine ⟨hgoes.reaches.trans hrest.reaches, hrest.marks.trans hgoes.marks, fun h => ?_, ?_⟩
          · rw [hrest.index h, hgoes.index rfl]
            omega
          · have hfirstCursor := hgoes.cursor
            have hrestCursor := hrest.cursor
            dsimp only at hfirstCursor ⊢
            omega
      | error stop =>
          have hgoes := hfirst fun h => hfull (by cases h; rfl)
          exact ⟨hgoes.reaches, hgoes.marks, fun h => (by cases h), hgoes.cursor⟩

/-! ### Looking ahead -/

theorem lookahead_reaches (i : Nat) (s : Stream) (journal : Journal)
    (hfull : ¬(lookahead i s journal).IsFull) :
    Reaches overrides s journal (lookahead i s journal).state (lookahead i s journal).journal := by
  have hahead := Source.readAhead_readsAhead i s.source journal
  have hlooks := lookahead_looksAhead i s journal
  generalize Source.readAhead i s.source journal = ahead at hahead hlooks
  generalize lookahead i s journal = o at hlooks hfull ⊢
  -- what has been read is taken back, or the window refuses that
  have hpeek : ∀ {source : Source} {journal' : Journal} {count : Nat}, s.source.Evolves source →
      Journal.Extends (·.isReading) journal journal' → source.cursor = s.source.cursor + count →
      Reaches overrides s journal { s with source := source.takeBack count } journal' := by
    rintro source journal' count hevolves ⟨events, hevents, hall⟩ hcursor
    have hback : (source.takeBack count).cursor = s.source.cursor := by
      show source.cursor - count = s.source.cursor
      omega
    exact (Move.peek (hevolves.trans (.takeBack _ _)) hback hall).reaches hevents
  have hoverrun : ∀ {source : Source} {journal' : Journal} {requested window : Nat}, s.source.Evolves source →
      Journal.Extends (·.isReading) journal journal' → source.history.window = some window →
      window < requested →
      Reaches overrides s journal { s with source := source }
        (journal'.push (.backupBeyondWindow requested window)) := by
    rintro source journal' requested window hevolves ⟨events, hevents, hall⟩ hwindow hlt
    refine (Move.overrun hevolves (hevolves.window ▸ hwindow) hlt hall).reaches ?_
    rw [Array.toList_push, hevents, List.append_assoc]
  cases hahead with
  | read hevolves hreading hcursor =>
      cases hlooks with
      | seen hadmits hle => exact hpeek hevolves hreading hcursor
      | refused hwindow hlt => exact hoverrun hevolves hreading hwindow hlt
  | failed hevolves hreading hle hlt =>
      cases hlooks with
      | failed hadmits => exact hpeek hevolves hreading (Nat.add_sub_of_le hle).symm
      | overrun hwindow hlt => exact hoverrun hevolves hreading hwindow hlt
  | full =>
      cases hlooks
      exact absurd rfl hfull

/-! ### Seeking -/

/-- The outcomes of `seek target` backward. `moved`: the index is the target and the cursor as far back. `refused`: the
source does not admit the backup, and the stream is what it was. -/
inductive SeeksBack (s : Stream) (target : Nat) (journal : Journal) : Outcome Stream Unit → Prop
  | moved (hadmits : s.source.Admits (s.index - target)) (hle : s.index - target ≤ s.source.cursor) :
      SeeksBack s target journal
        ⟨.ok (), s.retreat target, journal.push (.seekingBack s.index target)⟩
  | refused {f : Fault} {why : Event} (hwhy : why.isAnnouncement = false)
      (hrefused : s.source.Admits (s.index - target) → s.source.cursor < s.index - target) :
      SeeksBack s target journal
        ⟨.error (.fault f), s, (journal.push (.seekingBack s.index target)).push why⟩

theorem seek_eq (target : Nat) (s : Stream) (journal : Journal) :
    seek target s journal = (if target < s.index then do
      Action.emit (.seekingBack s.index target)
      onSource (Source.backup (s.index - target))
      setIndex target
    else advance.times (target - s.index)) s journal :=
  rfl

theorem seek_of_lt {target : Nat} {s : Stream} (h : target < s.index) (journal : Journal) :
    seek target s journal =
      Action.bind (onSource (Source.backup (s.index - target))) (fun _ => setIndex target) s
        (journal.push (.seekingBack s.index target)) := by
  rw [seek_eq, if_pos h]
  rfl

theorem seek_of_admits {target : Nat} {s : Stream} (h : target < s.index)
    (hadmits : s.source.Admits (s.index - target)) (hle : s.index - target ≤ s.source.cursor)
    (journal : Journal) :
    seek target s journal = ⟨.ok (), s.retreat target, journal.push (.seekingBack s.index target)⟩ := by
  rw [seek_of_lt h, Action.bind, onSource_eq, Source.backup_of_admits hadmits hle]
  rfl

theorem seek_of_not_admits {target : Nat} {s : Stream} (h : target < s.index)
    (hadmits : ¬s.source.Admits (s.index - target)) (journal : Journal) :
    ∃ window, s.source.history.window = some window ∧ window < s.index - target ∧
      seek target s journal = ⟨.error (.fault (.backupWindowExceeded (s.index - target) window)), s,
        (journal.push (.seekingBack s.index target)).push (.backupBeyondWindow (s.index - target) window)⟩ := by
  obtain ⟨window, hwindow, hlt, hbackup⟩ :=
    Source.backup_of_not_admits hadmits (journal.push (.seekingBack s.index target))
  refine ⟨window, hwindow, hlt, ?_⟩
  rw [seek_of_lt h, Action.bind, onSource_eq, hbackup]

theorem seek_of_le {target : Nat} {s : Stream} (h : s.index ≤ target) (journal : Journal) :
    seek target s journal = advance.times (target - s.index) s journal := by
  rw [seek_eq, if_neg (Nat.not_lt.mpr h)]

theorem seek_index (s : Stream) (journal : Journal) : seek s.index s journal = ⟨.ok (), s, journal⟩ := by
  rw [seek_of_le (Nat.le_refl _), Nat.sub_self]
  rfl

/-- Seeking to where the stream is or back retreats, if the way back is free. -/
theorem seek_retreats {target : Nat} {s : Stream} (hle : target ≤ s.index)
    (hadmits : s.source.Admits (s.index - target)) (hcursor : s.index - target ≤ s.source.cursor)
    (journal : Journal) : ∃ journal', seek target s journal = ⟨.ok (), s.retreat target, journal'⟩ := by
  rcases Nat.lt_or_eq_of_le hle with hlt | rfl
  · exact ⟨_, seek_of_admits hlt hadmits hcursor journal⟩
  · exact ⟨journal, by rw [seek_index, retreat_index]⟩

theorem seek_seeksBack {target : Nat} {s : Stream} (h : target < s.index) (journal : Journal) :
    SeeksBack s target journal (seek target s journal) := by
  have htakes := s.source.backup_takesBack (s.index - target) (journal.push (.seekingBack s.index target))
  rw [seek_of_lt h, Action.bind, onSource_eq]
  generalize Source.backup (s.index - target) s.source _ = back at htakes ⊢
  cases htakes with
  | taken hadmits hle => exact .moved hadmits hle
  | beyondWindow hwindow hlt => exact .refused rfl fun hadmits => absurd (hadmits _ hwindow) (by omega)
  | beforeStart hlt => exact .refused rfl fun _ => hlt

theorem seek_reaches (target : Nat) (s : Stream) (journal : Journal)
    (hfull : ¬(seek target s journal).IsFull) :
    Reaches overrides s journal (seek target s journal).state (seek target s journal).journal := by
  by_cases h : target < s.index
  · have hseeks := seek_seeksBack h journal
    generalize seek target s journal = o at hseeks ⊢
    cases hseeks with
    | moved hadmits hle => exact (Move.back h hadmits hle).reaches Array.toList_push
    | @refused f why hwhy hrefused =>
        have hstay : Move overrides s [.seekingBack s.index target, why] s :=
          .stay (by simpa using hwhy)
        exact hstay.reaches (by simp)
  · rw [seek_of_le (Nat.not_lt.mp h)] at hfull ⊢
    exact (times_advance_goes _ s journal hfull).reaches

/-! ### Marks -/

theorem mark_of_push {s : Stream} {journal : Journal} {m : Marker} {marks : MarkStack}
    (hpush : MarkStack.push s.position s.marks journal = ⟨.ok m, marks, journal⟩) :
    mark s journal = ⟨.ok m, { s with marks := marks }, journal.push (.marked m s.position)⟩ := by
  show Action.bind (onMarks (MarkStack.push s.position)) (fun m => do
    Action.emit (.marked m s.position)
    pure m) s journal = _
  rw [Action.bind, onMarks_eq, hpush]
  rfl

theorem mark_of_valid {s : Stream} (hvalid : s.marks.Valid) (journal : Journal) :
    ∃ marks : MarkStack, mark s journal = ⟨.ok ⟨s.marks.depth + 1⟩, { s with marks := marks },
        journal.push (.marked ⟨s.marks.depth + 1⟩ s.position)⟩ ∧
      marks.Valid ∧ marks.depth = s.marks.depth + 1 ∧ marks.entries = s.marks.entries ++ [s.position] := by
  obtain ⟨marks, hpush, hmarks⟩ := MarkStack.push_of_valid hvalid s.position journal
  exact ⟨marks, mark_of_push hpush, hmarks⟩

theorem release_of_isOpen {s : Stream} {m : Marker} (h : s.marks.isOpen m = true) (journal : Journal) :
    release m s journal = ⟨.ok (), { s with marks := s.marks.close m }, journal.push (.releasing m)⟩ := by
  show onMarks (MarkStack.release m) s (journal.push (.releasing m)) = _
  rw [onMarks_eq, MarkStack.release_of_isOpen h]

theorem release_of_not_isOpen {s : Stream} {m : Marker} (h : ¬s.marks.isOpen m = true) (journal : Journal) :
    release m s journal =
      ⟨.error (.breach (.markNotOpen m.depth s.marks.depth)), s, journal.push (.releasing m)⟩ := by
  show onMarks (MarkStack.release m) s (journal.push (.releasing m)) = _
  rw [onMarks_eq, MarkStack.release_of_not_isOpen h]

theorem mark_reaches {s : Stream} (hvalid : s.marks.Valid) (journal : Journal) :
    Reaches overrides s journal (mark s journal).state (mark s journal).journal := by
  obtain ⟨marks, hmark, hmarks, hdepth, hentries⟩ := mark_of_valid hvalid journal
  rw [hmark]
  exact (Move.mark hmarks hdepth hentries).reaches Array.toList_push

theorem release_reaches (m : Marker) (s : Stream) (journal : Journal) :
    Reaches overrides s journal (release m s journal).state (release m s journal).journal := by
  by_cases h : s.marks.isOpen m = true
  · rw [release_of_isOpen h]
    exact (Move.release h).reaches Array.toList_push
  · have hstay : Move overrides s [.releasing m] s := .stay (by simp [Event.isAnnouncement])
    rw [release_of_not_isOpen h]
    exact hstay.reaches Array.toList_push

/-! ### Rewinding -/

theorem rewindTo_of_not_isOpen {s : Stream} {m : Marker} (h : ¬s.marks.isOpen m = true) (journal : Journal) :
    rewindTo m s journal = ⟨.error (.breach (.markNotOpen m.depth s.marks.depth)), s, journal⟩ := by
  have hsaved : saved m s journal =
      ⟨.error (.breach (.markNotOpen m.depth s.marks.depth)), s, journal⟩ := by
    rw [saved, onMarks_eq, MarkStack.get_of_not_isOpen h]
  rw [rewindTo, Action.bind_apply, Action.bind, hsaved]

/-- The end of the way back to a mark. -/
def restore (m : Marker) (p : Position) : Action Stream Unit := do
  setLine p.line
  setColumn p.column
  release m

theorem rewindTo_of_isOpen {s : Stream} {m : Marker} (hvalid : s.marks.Valid) (h : s.marks.isOpen m = true)
    (journal : Journal) :
    ∃ p, s.marks.entries[m.depth - 1]? = some p ∧
      rewindTo m s journal = Action.bind (seek p.index) (fun _ => restore m p) s
        (journal.push (.rewinding m s.position p)) := by
  obtain ⟨p, hp, hget⟩ := MarkStack.get_of_isOpen hvalid h journal
  refine ⟨p, hp, ?_⟩
  have hsaved : saved m s journal = ⟨.ok p, s, journal⟩ := by
    rw [saved, onMarks_eq, hget]
  rw [rewindTo, Action.bind_apply, Action.bind, hsaved]
  rfl

theorem restore_of_isOpen {s : Stream} {m : Marker} {p : Position} (hopen : s.marks.isOpen m = true)
    (hindex : s.index = p.index) (journal : Journal) :
    restore m p s journal = ⟨.ok (), s.returnTo m p, journal.push (.releasing m)⟩ := by
  have hposition : (⟨s.index, p.line, p.column⟩ : Position) = p := by rw [hindex]
  show release m { s with position := ⟨s.index, p.line, p.column⟩ } journal = _
  rw [hposition]
  exact release_of_isOpen (s := { s with position := p }) hopen journal

/-- The way back to an open mark leads to what it has saved, if it is free. -/
theorem rewindTo_of_admits {s : Stream} {m : Marker} {p : Position} (hvalid : s.marks.Valid)
    (hopen : s.marks.isOpen m = true) (hsaved : s.marks.entries[m.depth - 1]? = some p) (hle : p.index ≤ s.index)
    (hadmits : s.source.Admits (s.index - p.index)) (hcursor : s.index - p.index ≤ s.source.cursor)
    (journal : Journal) :
    ∃ journal', rewindTo m s journal = ⟨.ok (), (s.retreat p.index).returnTo m p, journal'⟩ := by
  obtain ⟨q, hq, hrewind⟩ := rewindTo_of_isOpen hvalid hopen journal
  rw [hsaved] at hq
  cases hq
  obtain ⟨journal', hseek⟩ := seek_retreats hle hadmits hcursor (journal.push (.rewinding m s.position p))
  have hopenBack : (s.retreat p.index).marks.isOpen m = true := hopen
  have hindexBack : (s.retreat p.index).index = p.index := rfl
  refine ⟨journal'.push (.releasing m), ?_⟩
  rw [hrewind, Action.bind, hseek]
  exact restore_of_isOpen hopenBack hindexBack journal'

/-- `o` is an outcome of `rewindTo m`: moves lead to its state, and if there is a value, `m` was open, the position is
the one that `m` has saved, `m` is closed, and the cursor keeps its distance from the index. -/
structure Rewinds (overrides : Prop) (s : Stream) (journal : Journal) (m : Marker) (o : Outcome Stream Unit) :
    Prop where
  reaches : Reaches overrides s journal o.state o.journal
  returned : o.result = .ok () → s.marks.isOpen m = true ∧
    s.marks.entries[m.depth - 1]? = some o.state.position ∧ o.state.marks = s.marks.close m ∧
    o.state.source.cursor + s.index = s.source.cursor + o.state.index

theorem rewindTo_rewinds_back {s : Stream} {m : Marker} {p : Position} (hopen : s.marks.isOpen m = true)
    (hsaved : s.marks.entries[m.depth - 1]? = some p) (hlt : p.index < s.index) (journal : Journal) :
    Rewinds overrides s journal m (Action.bind (seek p.index) (fun _ => restore m p) s
      (journal.push (.rewinding m s.position p))) := by
  have hseeks := seek_seeksBack hlt (journal.push (.rewinding m s.position p))
  rw [Action.bind]
  generalize seek p.index s _ = o at hseeks ⊢
  cases hseeks with
  | moved hadmits hle =>
      have hmoved : (s.retreat p.index).marks.isOpen m = true := hopen
      have hindex : (s.retreat p.index).index = p.index := rfl
      dsimp only
      rw [restore_of_isOpen hmoved hindex]
      refine ⟨(Move.rewind hopen hsaved hlt hadmits hle).reaches (by simp), fun _ => ⟨hopen, hsaved, rfl, ?_⟩⟩
      have hcursor : s.source.cursor - (s.index - p.index) + s.index = s.source.cursor + p.index := by omega
      exact hcursor
  | @refused f why hwhy hrefused =>
      have hstay : Move overrides s [.rewinding m s.position p, .seekingBack s.index p.index, why] s :=
        .stay (by simpa using hwhy)
      exact ⟨hstay.reaches (by simp), fun h => by cases h⟩

theorem rewindTo_rewinds_forward {s : Stream} {m : Marker} {p : Position} (hopen : s.marks.isOpen m = true)
    (hsaved : s.marks.entries[m.depth - 1]? = some p) (hle : s.index ≤ p.index) (journal : Journal)
    (hfull : ¬(Action.bind (seek p.index) (fun _ => restore m p) s
      (journal.push (.rewinding m s.position p))).IsFull) :
    Rewinds overrides s journal m (Action.bind (seek p.index) (fun _ => restore m p) s
      (journal.push (.rewinding m s.position p))) := by
  have haim : Reaches overrides s journal s (journal.push (.rewinding m s.position p)) :=
    (Move.aim hle).reaches Array.toList_push
  have hgoes := @times_advance_goes overrides (p.index - s.index) s
    (journal.push (.rewinding m s.position p))
  rw [Action.bind, seek_of_le hle] at hfull ⊢
  generalize advance.times (p.index - s.index) s _ = o at hgoes hfull ⊢
  obtain ⟨result, mid, journal'⟩ := o
  cases result with
  | ok =>
      have hway := hgoes (Outcome.not_isFull_of_ok rfl)
      have hmarks : mid.marks = s.marks := hway.marks
      have hindex : mid.index = p.index := by
        rw [hway.index rfl]
        omega
      rw [← hmarks] at hopen hsaved
      dsimp only
      rw [restore_of_isOpen hopen hindex]
      have harrive : Reaches overrides mid journal' _ (journal'.push (.releasing m)) :=
        (Move.arrive hopen hsaved hindex).reaches Array.toList_push
      refine ⟨haim.trans (hway.reaches.trans harrive), fun _ => ⟨hmarks ▸ hopen, hmarks ▸ hsaved, ?_, ?_⟩⟩
      · exact congrArg (·.close m) hmarks
      · have hcursor : mid.source.cursor + s.index = s.source.cursor + mid.index := hway.cursor
        rw [hindex] at hcursor
        exact hcursor
  | error stop =>
      have hway := hgoes fun h => hfull (by cases h; rfl)
      exact ⟨haim.trans hway.reaches, fun h => by cases h⟩

theorem rewindTo_rewinds {s : Stream} (hvalid : s.marks.Valid) (m : Marker) (journal : Journal)
    (hfull : ¬(rewindTo m s journal).IsFull) :
    Rewinds overrides s journal m (rewindTo m s journal) := by
  by_cases hopen : s.marks.isOpen m = true
  · obtain ⟨p, hsaved, hrewind⟩ := rewindTo_of_isOpen hvalid hopen journal
    rw [hrewind] at hfull ⊢
    by_cases hlt : p.index < s.index
    · exact rewindTo_rewinds_back hopen hsaved hlt journal
    · exact rewindTo_rewinds_forward hopen hsaved (Nat.not_lt.mp hlt) journal hfull
  · rw [rewindTo_of_not_isOpen hopen]
    exact ⟨.refl s journal, fun h => by cases h⟩

end Stream

end Backtrack
