import Backtrack.Proofs.Stream.Clients
import Backtrack.Proofs.Stream.Cursor
import Backtrack.Proofs.Stream.Lookahead
import Backtrack.Proofs.Stream.Uses

/-! How the cursor of the source drifts from the index. Every operation moves the two alike but a lookahead
whose way back the window refuses: it leaves the cursor ahead by what it has read, and nothing makes up for
it afterwards. So the cursor is never behind the index, and no backup takes back more than has been read. -/

namespace Backtrack

/-- The reason is that a backup lacks the reads that it takes back. -/
def Stop.isUnderflow : Stop → Bool
  | .fault (.backupUnderflow ..) => true
  | _ => false

/-- The event does not report a backup for which there were too few reads. -/
def Event.isCovered : Event → Bool
  | .backupBeforeStart .. => false
  | _ => true

theorem Event.isCovered_of_isReading {e : Event} (h : e.isReading = true) : e.isCovered = true := by
  cases e <;> first | rfl | cases h

theorem Event.isCovered_of_phase {e : Event} (h : e.phase = .cli) : e.isCovered = true := by
  cases e <;> first | rfl | cases h

theorem Position.index_advance {p : Position} (h : p.index < counterLimit) (symbol : Symbol) :
    (p.advance symbol).1.index = p.index + 1 := by
  unfold advance
  rw [if_neg (Nat.not_le.mpr h)]
  by_cases hroom : counterLimit ≤ (if symbol.isLineTerminator then p.line else p.column)
  · rw [if_pos hroom]
  · rw [if_neg hroom]
    exact Position.index_next p symbol

namespace Stream

variable {α β : Type} {s mid : Stream} {journal : Journal}

/-- From `s` to `after` the cursor gets ahead of the index by `distance`, the source is read and taken back, and the
journal is extended by events that are `isCovered`: no backup lacks the reads that it takes back. -/
structure Strays (s : Stream) (journal : Journal) (distance : Nat) (after : Stream) (journal' : Journal) :
    Prop where
  leads : s.source.Leads after.source
  marks : s.marks.Valid → after.marks.Valid
  covered : Journal.Extends (·.isCovered) journal journal'
  cursor : after.source.cursor + s.index = s.source.cursor + after.index + distance

theorem Strays.refl (s : Stream) (journal : Journal) : Strays s journal 0 s journal :=
  ⟨.refl, id, .refl _, rfl⟩

theorem Strays.trans {after : Stream} {journal' journal'' : Journal} {distance distance' : Nat}
    (h : Strays s journal distance mid journal') (h' : Strays mid journal' distance' after journal'') :
    Strays s journal (distance + distance') after journal'' := by
  have hfirst := h.cursor
  have hsecond := h'.cursor
  exact ⟨h.leads.trans h'.leads, fun hvalid => h'.marks (h.marks hvalid), h.covered.trans h'.covered,
    by omega⟩

theorem Strays.ahead {after : Stream} {journal' : Journal} {distance : Nat}
    (h : Strays s journal distance after journal') (hahead : s.index ≤ s.source.cursor) :
    after.index ≤ after.source.cursor := by
  have hcursor := h.cursor
  omega

/-! ### Going forward -/

theorem advance_strays (hahead : s.index ≤ s.source.cursor) (journal : Journal) :
    Strays s journal 0 (advance s journal).state (advance s journal).journal := by
  have hleads := Source.Leads.refl.read (s := s.source) journal
  have hreading := (s.source.read_extends journal).mono fun e => Event.isCovered_of_isReading
  have hcursor := s.source.read_cursor journal
  have hadvances := advance_advances s journal
  generalize s.source.read journal = read at hleads hreading hcursor hadvances
  generalize advance s journal = o at hadvances ⊢
  cases hadvances with
  | @passed symbol source journal' =>
      have hindex := Position.index_next s.position symbol
      refine ⟨hleads, id, hreading, ?_⟩
      dsimp only [index] at hcursor hindex ⊢
      omega
  | @broken symbol source journal' =>
      -- the index counts before the counter that is full
      have hindex : (s.position.advance symbol).1.index = s.position.index + 1 :=
        Position.index_advance (lt_of_le_of_lt hahead hcursor.2) symbol
      refine ⟨hleads, id, hreading, ?_⟩
      dsimp only [index] at hcursor hindex ⊢
      omega
  | @stopped stop source journal' =>
      have hstay : source.cursor = s.source.cursor := by
        match stop with
        | .fault f => exact hcursor.2
        | .breach b => exact hcursor.2.1
      exact ⟨hleads, id, hreading, congrArg (· + s.index) hstay⟩

theorem times_advance_strays (count : Nat) (hahead : s.index ≤ s.source.cursor) (journal : Journal) :
    Strays s journal 0 (advance.times count s journal).state (advance.times count s journal).journal := by
  induction count generalizing s journal with
  | zero => exact .refl s journal
  | succ count ih =>
      have hfirst := advance_strays hahead journal
      rw [Action.times, Action.bind]
      generalize advance s journal = o at hfirst ⊢
      obtain ⟨result, mid, journal'⟩ := o
      cases result with
      | ok => exact hfirst.trans (ih (hfirst.ahead hahead) journal')
      | error stop => exact hfirst

/-! ### Looking ahead -/

/-- The action has been stopped by a full counter, and the cursor is at its limit. -/
def Exhausts (o : Outcome Stream α) : Prop :=
  o.IsFull ∧ counterLimit ≤ o.state.source.cursor

/-- The outcomes of a `lookahead` that has read `n` symbols, `ahead` being that of `Source.readAhead`. `back`: the
cursor is where it was. `away` and `full`: it is ahead by `n`, since the window refuses the way back or the cursor is at
its limit. -/
inductive Returns (s : Stream) (n : Nat) (ahead : Outcome Source Unit) : Outcome Stream (Option Symbol) → Prop
  | back {result : Except Stop (Option Symbol)} (hroom : ¬ahead.IsFull) (hadmits : s.source.Admits n) :
      Returns s n ahead ⟨result, { s with source := ahead.state.takeBack n }, ahead.journal⟩
  | away {result : Except Stop (Option Symbol)} {window : Nat} (hroom : ¬ahead.IsFull)
      (hwindow : s.source.history.window = some window) (hlt : window < n) :
      Returns s n ahead ⟨result, { s with source := ahead.state },
        ahead.journal.push (.backupBeyondWindow n window)⟩
  | full (hlimit : counterLimit ≤ ahead.state.cursor) :
      Returns s n ahead ⟨.error (.breach .counterOverflow), { s with source := ahead.state }, ahead.journal⟩

theorem lookahead_returns (i : Nat) (s : Stream) (journal : Journal) :
    Returns s (s.source.sight journal i) (Source.readAhead i s.source journal) (lookahead i s journal) := by
  have hahead := Source.readAhead_readsAhead i s.source journal
  have hlooks := lookahead_looksAhead i s journal
  unfold Source.sight
  generalize Source.readAhead i s.source journal = ahead at hahead hlooks ⊢
  generalize lookahead i s journal = o at hlooks ⊢
  cases hahead with
  | @read source journal' hevolves hreading hcursor =>
      have hroom : ¬(⟨.ok (), source, journal'⟩ : Outcome Source Unit).IsFull := Outcome.not_isFull_of_ok rfl
      obtain rfl : source.cursor - s.source.cursor = i := by omega
      cases hlooks with
      | seen hadmits hle => exact .back hroom (hevolves.admits.mp hadmits)
      | refused hwindow hlt => exact .away hroom (hevolves.window ▸ hwindow) hlt
  | @failed reason source journal' hevolves hreading hle hlt =>
      have hroom : ¬(⟨.error (.fault (.io reason)), source, journal'⟩ : Outcome Source Unit).IsFull := by
        intro h
        cases h
      cases hlooks with
      | failed hadmits => exact .back hroom (hevolves.admits.mp hadmits)
      | overrun hwindow hlt => exact .away hroom (hevolves.window ▸ hwindow) hlt
  | full hevolves hreading hle hlt hlimit =>
      cases hlooks
      exact .full hlimit

theorem lookahead_strays (i : Nat) (s : Stream) (journal : Journal) :
    ∃ distance, Strays s journal distance (lookahead i s journal).state (lookahead i s journal).journal ∧
      (s.source.Admits (s.source.sight journal i) → distance = 0 ∨ Exhausts (lookahead i s journal)) := by
  have hreturns := lookahead_returns i s journal
  have hahead := Source.readAhead_readsAhead i s.source journal
  have hcursor := Source.cursor_readAhead i s.source journal
  have hcovered := hahead.extends.mono fun e => Event.isCovered_of_isReading
  have hleads := Source.readAhead_leads i s.source journal
  generalize s.source.sight journal i = n at hreturns hcursor ⊢
  generalize Source.readAhead i s.source journal = ahead at hreturns hcursor hcovered hleads
  generalize lookahead i s journal = o at hreturns ⊢
  cases hreturns with
  | back hroom hadmits =>
      refine ⟨0, ⟨hleads.takeBack n, id, hcovered, ?_⟩, fun _ => .inl rfl⟩
      show ahead.state.cursor - n + s.index = s.source.cursor + s.index + 0
      omega
  | away hroom hwindow hlt =>
      refine ⟨n, ⟨hleads, id, hcovered.push rfl, ?_⟩, fun hadmits => ?_⟩
      · show ahead.state.cursor + s.index = s.source.cursor + s.index + n
        omega
      · exact absurd (hadmits _ hwindow) (Nat.not_le.mpr hlt)
  | full hlimit =>
      refine ⟨n, ⟨hleads, id, hcovered, ?_⟩, fun _ => .inr ⟨rfl, hlimit⟩⟩
      show ahead.state.cursor + s.index = s.source.cursor + s.index + n
      omega

/-! ### Seeking and rewinding -/

theorem seek_strays (target : Nat) (hahead : s.index ≤ s.source.cursor) (journal : Journal) :
    Strays s journal 0 (seek target s journal).state (seek target s journal).journal := by
  by_cases h : target < s.index
  · have hseeking : Journal.Extends (·.isCovered) journal (journal.push (.seekingBack s.index target)) :=
      (Journal.Extends.refl journal).push rfl
    have hle : s.index - target ≤ s.source.cursor := by omega
    by_cases hadmits : s.source.Admits (s.index - target)
    · rw [seek_of_admits h hadmits hle]
      refine ⟨Source.Leads.refl.takeBack _, id, hseeking, ?_⟩
      show s.source.cursor - (s.index - target) + s.index = s.source.cursor + target + 0
      omega
    · obtain ⟨window, -, -, hseek⟩ := seek_of_not_admits h hadmits journal
      rw [hseek]
      exact ⟨.refl, id, hseeking.push rfl, rfl⟩
  · rw [seek_of_le (Nat.not_lt.mp h)]
    exact times_advance_strays _ hahead journal

theorem mark_strays (hvalid : s.marks.Valid) (journal : Journal) :
    Strays s journal 0 (mark s journal).state (mark s journal).journal := by
  obtain ⟨marks, hmark, hmarks, -⟩ := mark_of_valid hvalid journal
  rw [hmark]
  exact ⟨.refl, fun _ => hmarks, (Journal.Extends.refl journal).push rfl, rfl⟩

theorem release_strays (m : Marker) (s : Stream) (journal : Journal) :
    Strays s journal 0 (release m s journal).state (release m s journal).journal := by
  have hreleasing : Journal.Extends (·.isCovered) journal (journal.push (.releasing m)) :=
    (Journal.Extends.refl journal).push rfl
  by_cases h : s.marks.isOpen m = true
  · rw [release_of_isOpen h]
    exact ⟨.refl, fun hvalid => hvalid.close h, hreleasing, rfl⟩
  · rw [release_of_not_isOpen h]
    exact ⟨.refl, id, hreleasing, rfl⟩

theorem restore_strays (m : Marker) (p : Position) (s : Stream) (journal : Journal) :
    Strays s journal 0 (restore m p s journal).state (restore m p s journal).journal := by
  have hset : Strays s journal 0 { s with position := ⟨s.index, p.line, p.column⟩ } journal :=
    ⟨.refl, id, .refl _, rfl⟩
  exact hset.trans (release_strays m _ journal)

theorem rewindTo_strays (m : Marker) (hvalid : s.marks.Valid) (hahead : s.index ≤ s.source.cursor)
    (journal : Journal) :
    Strays s journal 0 (rewindTo m s journal).state (rewindTo m s journal).journal := by
  by_cases h : s.marks.isOpen m = true
  · obtain ⟨p, -, hrewind⟩ := rewindTo_of_isOpen hvalid h journal
    have haim : Strays s journal 0 s (journal.push (.rewinding m s.position p)) :=
      ⟨.refl, id, (Journal.Extends.refl journal).push rfl, rfl⟩
    have hseek := seek_strays p.index hahead (journal.push (.rewinding m s.position p))
    rw [hrewind, Action.bind]
    generalize seek p.index s _ = o at hseek ⊢
    obtain ⟨result, mid, journal'⟩ := o
    cases result with
    | ok => exact haim.trans (hseek.trans (restore_strays m p mid journal'))
    | error stop => exact haim.trans hseek
  · rw [rewindTo_of_not_isOpen h]
    exact .refl s journal

/-! ### Programs -/

/-- Terms on which the window refuses no lookahead, and nothing goes on where the cursor is at its limit. -/
structure Terms.Steady (terms : Terms) : Prop where
  lookahead : ∀ {s journal i}, terms.lookahead s journal i → s.source.Admits (s.source.sight journal i)
  resume : ∀ {s}, terms.resume s → s.source.cursor < counterLimit

/-- Whatever uses a stream, the cursor is never behind the index; on steady terms it does not get ahead. -/
theorem Uses.strays {terms : Terms} {x : Action Stream α} (hx : Uses terms x s journal)
    (hvalid : s.marks.Valid) (hahead : s.index ≤ s.source.cursor) :
    ∃ distance, Strays s journal distance (x s journal).state (x s journal).journal ∧
      (terms.Steady → distance = 0 ∨ Exhausts (x s journal)) := by
  induction hx with
  | advance => exact ⟨0, advance_strays hahead _, fun _ => .inl rfl⟩
  | @lookahead s journal i h =>
      obtain ⟨distance, hstrays, hadmitted⟩ := lookahead_strays i s journal
      exact ⟨distance, hstrays, fun hsteady => hadmitted (hsteady.lookahead h)⟩
  | seek target => exact ⟨0, seek_strays target hahead _, fun _ => .inl rfl⟩
  | setLine line => exact ⟨0, ⟨.refl, id, .refl _, rfl⟩, fun _ => .inl rfl⟩
  | setColumn column => exact ⟨0, ⟨.refl, id, .refl _, rfl⟩, fun _ => .inl rfl⟩
  | mark => exact ⟨0, mark_strays hvalid _, fun _ => .inl rfl⟩
  | release m => exact ⟨0, release_strays m _ _, fun _ => .inl rfl⟩
  | rewindTo m => exact ⟨0, rewindTo_strays m hvalid hahead _, fun _ => .inl rfl⟩
  | @substring s journal start stop =>
      refine ⟨0, ?_, fun _ => .inl rfl⟩
      unfold Stream.substring
      split <;> exact .refl s journal
  | query f => exact ⟨0, .refl _ _, fun _ => .inl rfl⟩
  | report h =>
      exact ⟨0, ⟨.refl, id, (Journal.Extends.refl _).push (Event.isCovered_of_phase h), rfl⟩, fun _ => .inl rfl⟩
  | pure a => exact ⟨0, .refl _ _, fun _ => .inl rfl⟩
  | stop h => exact ⟨0, .refl _ _, fun _ => .inl rfl⟩
  | @bind s journal α β x f hx hf ihx ihf =>
      obtain ⟨distance, hfirst, hzero⟩ := ihx hvalid hahead
      rw [Action.bind_apply, Action.bind]
      generalize x s journal = o at hfirst hzero ihf ⊢
      obtain ⟨result, mid, journal'⟩ := o
      cases result with
      | ok a =>
          obtain ⟨distance', hrest, hzero'⟩ := ihf a rfl (hfirst.marks hvalid) (hfirst.ahead hahead)
          refine ⟨distance + distance', hfirst.trans hrest, fun hsteady => ?_⟩
          have hnone : distance = 0 :=
            (hzero hsteady).resolve_right fun h => Outcome.not_isFull_of_ok rfl h.1
          exact (hzero' hsteady).imp_left fun h => by omega
      | error stop =>
          refine ⟨distance, hfirst, fun hsteady => (hzero hsteady).imp_right fun h => ⟨?_, h.2⟩⟩
          cases h.1
          rfl
  | @attempt s journal α x hx ih =>
      obtain ⟨distance, hstrays, hzero⟩ := ih hvalid hahead
      refine ⟨distance, ?_⟩
      unfold Action.attempt
      generalize x s journal = o at hstrays hzero ⊢
      split
      · exact ⟨hstrays, fun hsteady => (hzero hsteady).imp_right fun h => by cases h.1⟩
      · exact ⟨hstrays, fun hsteady => (hzero hsteady).imp_right fun h => by cases h.1⟩
      · refine ⟨hstrays, fun hsteady => (hzero hsteady).imp_right fun h => ⟨?_, h.2⟩⟩
        cases h.1
        rfl
  | @capture s journal α x hx h ih =>
      obtain ⟨distance, hstrays, hzero⟩ := ih hvalid hahead
      refine ⟨distance, hstrays, fun hsteady => .inl ?_⟩
      exact (hzero hsteady).resolve_right fun hfull => Nat.not_le.mpr (hsteady.resume h) hfull.2

/-! ### Stops -/

/-- The action has not been stopped because a backup lacks the reads that it takes back. -/
def Suffices (o : Outcome Stream α) : Prop :=
  ∀ reason, o.result = .error reason → reason.isUnderflow = false

theorem suffices_of_ok {o : Outcome Stream α} {a : α} (h : o.result = .ok a) : Suffices o := by
  intro reason hstop
  rw [h] at hstop
  cases hstop

theorem suffices_of_error {o : Outcome Stream α} {reason : Stop} (h : o.result = .error reason)
    (hreason : reason.isUnderflow = false) : Suffices o := by
  intro reason' hstop
  rw [h] at hstop
  cases hstop
  exact hreason

theorem advance_suffices (s : Stream) (journal : Journal) : Suffices (advance s journal) := by
  have hcursor := s.source.read_cursor journal
  have hadvances := advance_advances s journal
  generalize s.source.read journal = read at hcursor hadvances
  generalize advance s journal = o at hadvances ⊢
  cases hadvances with
  | passed => exact suffices_of_ok rfl
  | broken => exact suffices_of_error rfl rfl
  | @stopped stop source journal' =>
      refine suffices_of_error rfl ?_
      match stop with
      | .fault f =>
          obtain ⟨⟨reason, rfl⟩, -⟩ := hcursor
          rfl
      | .breach b => rfl

theorem times_advance_suffices (count : Nat) (s : Stream) (journal : Journal) :
    Suffices (advance.times count s journal) := by
  induction count generalizing s journal with
  | zero => exact suffices_of_ok rfl
  | succ count ih =>
      have hfirst := advance_suffices s journal
      rw [Action.times, Action.bind]
      generalize advance s journal = o at hfirst ⊢
      obtain ⟨result, mid, journal'⟩ := o
      cases result with
      | ok => exact ih mid journal'
      | error stop => exact hfirst

theorem lookahead_suffices (i : Nat) (s : Stream) (journal : Journal) :
    Suffices (lookahead i s journal) := by
  have hahead := Source.readAhead_readsAhead i s.source journal
  have hlooks := lookahead_looksAhead i s journal
  generalize Source.readAhead i s.source journal = ahead at hahead hlooks
  generalize lookahead i s journal = o at hlooks ⊢
  cases hahead with
  | read =>
      cases hlooks with
      | seen => exact suffices_of_ok rfl
      | refused => exact suffices_of_error rfl rfl
  | failed => cases hlooks <;> exact suffices_of_error rfl rfl
  | full =>
      cases hlooks
      exact suffices_of_error rfl rfl

theorem seek_suffices (target : Nat) (hahead : s.index ≤ s.source.cursor) (journal : Journal) :
    Suffices (seek target s journal) := by
  by_cases h : target < s.index
  · by_cases hadmits : s.source.Admits (s.index - target)
    · rw [seek_of_admits h hadmits (by omega)]
      exact suffices_of_ok rfl
    · obtain ⟨window, -, -, hseek⟩ := seek_of_not_admits h hadmits journal
      rw [hseek]
      exact suffices_of_error rfl rfl
  · rw [seek_of_le (Nat.not_lt.mp h)]
    exact times_advance_suffices _ s journal

theorem release_suffices (m : Marker) (s : Stream) (journal : Journal) : Suffices (release m s journal) := by
  by_cases h : s.marks.isOpen m = true
  · rw [release_of_isOpen h]
    exact suffices_of_ok rfl
  · rw [release_of_not_isOpen h]
    exact suffices_of_error rfl rfl

theorem rewindTo_suffices (m : Marker) (hvalid : s.marks.Valid) (hahead : s.index ≤ s.source.cursor)
    (journal : Journal) : Suffices (rewindTo m s journal) := by
  by_cases h : s.marks.isOpen m = true
  · obtain ⟨p, -, hrewind⟩ := rewindTo_of_isOpen hvalid h journal
    have hseek := seek_suffices p.index hahead (journal.push (.rewinding m s.position p))
    rw [hrewind, Action.bind]
    generalize seek p.index s _ = o at hseek ⊢
    obtain ⟨result, mid, journal'⟩ := o
    cases result with
    | ok => exact release_suffices m _ journal'
    | error stop => exact hseek
  · rw [rewindTo_of_not_isOpen h]
    exact suffices_of_error rfl rfl

/-- That a backup lacks reads stops a program only of its own accord. -/
theorem Uses.stop_cases {terms : Terms} {x : Action Stream α} (hx : Uses terms x s journal)
    (hvalid : s.marks.Valid) (hahead : s.index ≤ s.source.cursor) {reason : Stop}
    (hstop : (x s journal).result = .error reason) : reason.isUnderflow = false ∨ terms.stop reason := by
  induction hx with
  | advance => exact .inl (advance_suffices _ _ _ hstop)
  | @lookahead s journal i h => exact .inl (lookahead_suffices i s journal _ hstop)
  | seek target => exact .inl (seek_suffices target hahead _ _ hstop)
  | mark =>
      obtain ⟨marks, hmark, -⟩ := mark_of_valid hvalid _
      rw [hmark] at hstop
      cases hstop
  | release m => exact .inl (release_suffices m _ _ _ hstop)
  | rewindTo m => exact .inl (rewindTo_suffices m hvalid hahead _ _ hstop)
  | @substring s journal start stop h =>
      unfold Stream.substring Source.range History.range at hstop
      split_ifs at hstop <;> cases hstop
      exact .inl rfl
  | stop h =>
      cases hstop
      exact .inr h
  | @bind s journal α β x g hx hg ihx ihg =>
      obtain ⟨distance, hfirst, -⟩ := hx.strays hvalid hahead
      rw [Action.bind_apply, Action.bind] at hstop
      generalize x s journal = o at hfirst ihx ihg hstop
      obtain ⟨result, mid, journal'⟩ := o
      cases result with
      | ok a => exact ihg a rfl (hfirst.marks hvalid) (hfirst.ahead hahead) hstop
      | error stop =>
          cases hstop
          exact ihx hvalid hahead rfl
  | @attempt s journal α x hx ih =>
      unfold Action.attempt at hstop
      generalize x s journal = o at ih hstop
      split at hstop <;> cases hstop
      exact .inl rfl
  | setLine | setColumn | query | report | pure | capture => cases hstop

/-! ### From a fresh stream on -/

/-- Lookaheads stay within the window, and nothing goes on where the cursor is at its limit. -/
def Terms.withinWindow : Terms :=
  ⟨fun s _ i => s.source.Admits i, fun _ _ _ => True, fun _ => True, fun s => s.source.cursor < counterLimit⟩

theorem Terms.steady_withinWindow : Terms.withinWindow.Steady :=
  ⟨fun h window hwindow => (Source.sight_le _ _ _).trans (h window hwindow), id⟩

/-- Where the cursor does not come to its limit, a lookahead takes back what it has read, or the window
refuses that and the cursor stays where the reading has come. -/
theorem lookahead_cursor {i : Nat} (hroom : (Source.readAhead i s.source journal).state.cursor < counterLimit) :
    let n := s.source.sight journal i
    let after := lookahead i s journal
    after.state.index = s.index ∧
      (s.source.Admits n → after.state.source.cursor = s.source.cursor) ∧
      (¬s.source.Admits n → after.state.source.cursor = s.source.cursor + n ∧
        ∃ window, s.source.history.window = some window ∧ window < n ∧
          after.journal = (Source.readAhead i s.source journal).journal.push (.backupBeyondWindow n window)) := by
  have hreturns := lookahead_returns i s journal
  have hcursor := Source.cursor_readAhead i s.source journal
  generalize s.source.sight journal i = n at hreturns hcursor ⊢
  generalize Source.readAhead i s.source journal = ahead at hroom hreturns hcursor ⊢
  generalize lookahead i s journal = o at hreturns ⊢
  cases hreturns with
  | back hcount hadmits =>
      refine ⟨rfl, fun _ => ?_, fun h => absurd hadmits h⟩
      show ahead.state.cursor - n = s.source.cursor
      rw [hcursor, Nat.add_sub_cancel]
  | away hcount hwindow hlt =>
      refine ⟨rfl, fun h => ?_, fun _ => ⟨hcursor, _, hwindow, hlt, rfl⟩⟩
      exact absurd (h _ hwindow) (Nat.not_le.mpr hlt)
  | full hlimit => exact absurd hroom (Nat.not_lt.mpr hlimit)

/-- How far the cursor is ahead of the index. Wherever a program takes a fresh stream, the index is not beyond the
cursor. Their distance stays the same on terms that are `Steady`; a `lookahead` that the window refuses adds what it has
read, its `sight`. So with lookaheads within the window, or without one, the cursor is the index. No backup is asked for
that exceeds what has been read. -/
theorem cursor_drift {x : Action Stream α} {text : List Char} {fresh : Stream} (hfresh : fresh.IsFresh text)
    {start : Journal} (hx : Uses .free x fresh start) :
    let s := (x fresh start).state
    let journal := (x fresh start).journal
    s.index ≤ s.source.cursor ∧
      (∀ {β : Type} (terms : Terms) (y : Action Stream β), Uses terms y s journal →
        let after := (y s journal).state
        (terms.Steady → after.source.cursor < counterLimit →
          after.source.cursor - after.index = s.source.cursor - s.index) ∧
        ∀ requested available, (y s journal).result = .error (.fault (.backupUnderflow requested available)) →
          terms.stop (.fault (.backupUnderflow requested available))) ∧
      (∀ i, (Source.readAhead i s.source journal).state.cursor < counterLimit →
        let n := s.source.sight journal i
        let after := (lookahead i s journal).state
        after.index = s.index ∧ (s.source.Admits n → after.source.cursor = s.source.cursor) ∧
          (¬s.source.Admits n → after.source.cursor = s.source.cursor + n)) ∧
      (Uses .withinWindow x fresh start → s.source.cursor < counterLimit → s.source.cursor = s.index) ∧
      ∀ e ∈ Journal.since start journal, e.isCovered = true := by
  intro s journal
  obtain ⟨distance, hstrays, -⟩ := hx.strays hfresh.valid_marks hfresh.ahead
  have hahead : s.index ≤ s.source.cursor := hstrays.ahead hfresh.ahead
  have hvalid : s.marks.Valid := hstrays.marks hfresh.valid_marks
  refine ⟨hahead, fun terms y hy => ⟨fun hsteady hroom => ?_, fun requested available h => ?_⟩, fun i hroom => ?_,
    fun hwithin hroom => ?_, ?_⟩
  · obtain ⟨distance, hstrays, hzero⟩ := hy.strays hvalid hahead
    obtain rfl : distance = 0 :=
      (hzero hsteady).resolve_right fun h => Nat.not_le.mpr hroom h.2
    have hcursor := hstrays.cursor
    omega
  · exact (hy.stop_cases hvalid hahead h).resolve_left Bool.noConfusion
  · obtain ⟨hindex, hback, haway⟩ := lookahead_cursor hroom
    exact ⟨hindex, hback, fun h => (haway h).1⟩
  · obtain ⟨distance, hstrays, hzero⟩ := hwithin.strays hfresh.valid_marks hfresh.ahead
    obtain rfl : distance = 0 :=
      (hzero Terms.steady_withinWindow).resolve_right fun h => Nat.not_le.mpr hroom h.2
    have hcursor := hstrays.cursor
    rw [hfresh.index, hfresh.cursor, Nat.add_zero, Nat.add_zero, Nat.zero_add] at hcursor
    exact hcursor
  · obtain ⟨events, hevents, hall⟩ := hstrays.covered
    rw [Journal.since_eq_of_append hevents]
    exact hall

/-- A column that is set to its limit and a window of one symbol: the lookahead of two symbols is not taken
back, the step behind it breaks off at the column, and the seek to the start leaves the cursor two symbols
ahead. -/
theorem cursor_drift_refused :
    let x := setColumn counterLimit >>= fun _ => (lookahead 2).capture >>= fun _ => advance.capture
    let o := x (ofSource (.ofText ['a', 'b'] (some 1)) "text" false) #[]
    let back := seek 0 o.state o.journal
    o.result = .ok (.error (.breach .counterOverflow)) ∧ o.state.index ≤ o.state.source.cursor ∧
      back.state.source.cursor - back.state.index = 2 := by
  intro x o back
  have hfresh : (ofSource (.ofText ['a', 'b'] (some 1)) "text" false).IsFresh ['a', 'b'] :=
    ⟨.inl ⟨some 1, rfl⟩, rfl, 0, rfl⟩
  have hx : Uses .free x (ofSource (.ofText ['a', 'b'] (some 1)) "text" false) #[] :=
    (Uses.setColumn _).bind fun _ _ => ((Uses.lookahead trivial).capture trivial).bind fun _ _ =>
      Uses.advance.capture trivial
  obtain ⟨hahead, hprogram, -⟩ := cursor_drift hfresh hx
  have hback := (hprogram .withinWindow (seek 0) (.seek 0)).1 Terms.steady_withinWindow (by decide +kernel)
  refine ⟨by decide +kernel, hahead, hback.trans ?_⟩
  decide +kernel

end Stream

end Backtrack
