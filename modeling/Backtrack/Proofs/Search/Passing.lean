import Backtrack.Proofs.Search.Places
import Backtrack.Proofs.Stream.Attempts
import Backtrack.Proofs.Stream.Reached

/-! Passing over a text. While a stream passes the symbols of its text, what it shows is known from where it began and
from how many symbols it has passed, whatever the window is and whether or not the reader fails. What an operation does
there is said with the one reason that a counter may have to be full; the rest is then a matter of putting the
operations together. -/

namespace Backtrack.Stream

variable {text : List Char} {origin s : Stream} {saved : List Position} {n i : Nat} {full : Prop}
  {journal between : Journal} {source : Source}

/-! ### Looking ahead -/

/-- Looking at the next symbol reads it and takes it back. -/
theorem lookahead_of_read {symbol : Symbol} (hread : s.source.read journal = ⟨.ok symbol, source, between⟩)
    (hadmits : s.source.Admits 1) :
    lookahead 1 s journal = ⟨.ok (some (symbol.seen s.caseFold)), { s with source := source.takeBack 1 }, between⟩ := by
  have hevolves := s.source.read_evolves journal
  have hcursor := s.source.read_cursor journal
  rw [hread] at hevolves hcursor
  have hon : readOn 0 .eof 1 s journal = ⟨.ok symbol, { s with source := source }, between⟩ := by
    rw [readOn, Action.bind_apply, Action.bind, Action.attempt, onSource_eq, hread]
    rfl
  have hback : onSource (Source.backup 1) { s with source := source } between =
      ⟨.ok (), { s with source := source.takeBack 1 }, between⟩ := by
    rw [onSource_eq, Source.backup_of_admits (hevolves.admits.mpr hadmits) (hcursor.1 ▸ Nat.le_add_left 1 _)]
  rw [lookahead, if_neg Nat.one_ne_zero, Action.bind_of_ok hon, Action.bind_of_ok hback]
  rfl

/-- When the next symbol cannot be read, it cannot be looked at. -/
theorem lookahead_of_read_error {stop : Stop} (hread : s.source.read journal = ⟨.error stop, source, between⟩) :
    lookahead 1 s journal = ⟨.error stop, { s with source := source }, between⟩ := by
  have hon : readOn 0 .eof 1 s journal = ⟨.error stop, { s with source := source }, between⟩ := by
    rw [readOn, Action.bind_apply, Action.bind, Action.attempt, onSource_eq, hread]
    cases stop with
    | breach b => rfl
    | fault f =>
        have hback : Source.backup 0 source between = ⟨.ok (), source, between⟩ :=
          Source.backup_of_admits (fun _ _ => Nat.zero_le _) (Nat.zero_le _) between
        dsimp only
        rw [Action.bind_apply, Action.bind, Action.attempt, onSource_eq, hback]
        rfl
  rw [lookahead, if_neg Nat.one_ne_zero, Action.bind_of_error hon]

theorem readOn_symbol {done count : Nat} {last symbol : Symbol} {after : Stream} (hvalid : s.source.Valid)
    (h : readOn done last (count + 1) s journal = ⟨.ok symbol, after, between⟩) :
    symbol = .ofText s.source.text (s.source.cursor + count) := by
  induction count generalizing done last s journal with
  | zero =>
      have hreads := Source.read_reads hvalid journal
      rw [readOn, Action.bind_apply, Action.bind, Action.attempt, onSource_eq] at h
      generalize s.source.read journal = o at h hreads
      obtain ⟨result, mid, between⟩ := o
      cases result with
      | ok found =>
          cases h
          exact hreads.2.2.1
      | error stop =>
          cases stop with
          | fault f =>
              obtain ⟨_, _, _, -, hfail⟩ := Action.bind_eq_ok h
              cases hfail
          | breach b => cases h
  | succ count ih =>
      have hreads := Source.read_reads hvalid journal
      rw [readOn, Action.bind_apply, Action.bind, Action.attempt, onSource_eq] at h
      generalize s.source.read journal = o at h hreads
      obtain ⟨result, mid, between⟩ := o
      cases result with
      | ok found =>
          obtain ⟨hsame, -, -, hcursor, -⟩ := hreads
          rw [ih (s := { s with source := mid }) hsame.valid h]
          dsimp only
          rw [hsame.text, hcursor, Nat.add_right_comm, Nat.add_assoc]
      | error stop =>
          cases stop with
          | fault f =>
              obtain ⟨_, _, _, -, hfail⟩ := Action.bind_eq_ok h
              cases hfail
          | breach b => cases h

theorem readOn_caseFold {done count : Nat} {last symbol : Symbol} {after : Stream}
    (h : readOn done last count s journal = ⟨.ok symbol, after, between⟩) : after.caseFold = s.caseFold := by
  have hon := readOn_eq done last count s journal
  rw [h] at hon
  generalize Source.readAhead count s.source journal = ahead at hon
  obtain ⟨result, source, between⟩ := ahead
  match result with
  | .ok () =>
      obtain ⟨_, hon⟩ := hon
      cases hon
      rfl
  | .error (.fault f) => cases hon
  | .error (.breach b) => cases hon

theorem lookahead_symbol {symbol : Option Symbol} {after : Stream} (hvalid : s.source.Valid)
    (h : lookahead (i + 1) s journal = ⟨.ok symbol, after, between⟩) :
    symbol = some ((Symbol.ofText s.source.text (s.source.cursor + i)).seen s.caseFold) := by
  rw [lookahead, if_neg (Nat.succ_ne_zero i)] at h
  obtain ⟨found, mid, _, hon, h⟩ := Action.bind_eq_ok h
  obtain ⟨_, _, _, hback, h⟩ := Action.bind_eq_ok h
  rw [onSource_eq] at hback
  generalize Source.backup (i + 1) mid.source _ = back at hback
  obtain ⟨result, back, rest⟩ := back
  cases hback
  cases h
  rw [← readOn_symbol hvalid hon, ← readOn_caseFold hon]
  rfl

/-- The ends of `lookahead i` where the reader does not fail. `seen`: it answers with the symbol `i - 1` places behind
the cursor, which is where it was. `refused`: the window is less than `i`, and it stops with `backupWindowExceeded`. -/
inductive Sees (s : Stream) (i : Nat) : Except Stop (Option Symbol) → Stream → Prop
  | seen {source : Source} (hleads : s.source.Leads source) (hcursor : source.cursor = s.source.cursor)
      (hadmits : s.source.Admits i) :
      Sees s i (.ok (some ((Symbol.ofText s.source.text (s.source.cursor + (i - 1))).seen s.caseFold)))
        { s with source := source }
  | refused {source : Source} {window : Nat} (hleads : s.source.Leads source)
      (hwindow : s.source.history.window = some window) (hlt : window < i) :
      Sees s i (.error (.fault (.backupWindowExceeded i window))) { s with source := source }

theorem lookahead_sees (hvalid : s.source.Valid) (hreliable : s.source.Reliable) (hi : 0 < i) (journal : Journal) :
    (lookahead i s journal).Ends (counterLimit < s.source.cursor + i) (Sees s i) := by
  obtain ⟨i, rfl⟩ : ∃ k, i = k + 1 := ⟨i - 1, by omega⟩
  have hahead := Source.readAhead_readsAhead (i + 1) s.source journal
  have hleads := Source.readAhead_leads (i + 1) s.source journal
  have hread := Source.readAhead_of_reliable hvalid hreliable (i + 1) journal
  have hlooks := lookahead_looksAhead (i + 1) s journal
  have hsymbol := @lookahead_symbol s i journal
  generalize Source.readAhead (i + 1) s.source journal = ahead at hahead hleads hread hlooks
  generalize lookahead (i + 1) s journal = o at hlooks hsymbol ⊢
  cases hahead with
  | read hevolves hreading hcursor =>
      cases hlooks with
      | seen hadmits hle =>
          rw [hsymbol hvalid rfl]
          refine Outcome.ends_ok (.seen (hleads.takeBack _) ?_ (hevolves.admits.mp hadmits))
          exact Nat.sub_eq_of_eq_add hcursor
      | refused hwindow hlt => exact Outcome.ends_fault (.refused hleads (hevolves.window ▸ hwindow) hlt)
  | failed =>
      rcases hread with hok | ⟨hfull, -⟩
      · cases hok
      · cases hfull
  | full =>
      cases hlooks
      rcases hread with hok | ⟨-, hlimit⟩
      · cases hok
      · exact Outcome.ends_full rfl hlimit

/-! ### Behind where it began -/

/-- The stream has come from `origin` to `n` symbols behind it, with `saved` in its open marks. -/
structure Beyond (text : List Char) (origin : Stream) (saved : List Position) (n : Nat) (s : Stream) : Prop where
  leads : origin.source.Leads s.source
  cursor : s.source.cursor = origin.index + n
  index : s.index = origin.index + n
  position : s.position = origin.position.along text n
  marks : s.marks.Valid
  entries : s.marks.entries = saved
  folds : s.caseFold = origin.caseFold

theorem Valid.beyond (hvalid : origin.Valid text) (hcursor : origin.source.cursor = origin.index) :
    Beyond text origin origin.marks.entries 0 origin :=
  ⟨.refl, hcursor, rfl, rfl, hvalid.marks, rfl, rfl⟩

namespace Beyond

theorem depth (h : Beyond text origin saved n s) : s.marks.depth = saved.length := by
  rw [← MarkStack.length_entries h.marks, h.entries]

/-- The same place, with another source whose cursor is there. -/
theorem of_leads (h : Beyond text origin saved n s) (hleads : s.source.Leads source)
    (hcursor : source.cursor = s.source.cursor) : Beyond text origin saved n { s with source := source } :=
  { h with leads := h.leads.trans hleads, cursor := hcursor.trans h.cursor }

theorem admits (h : Beyond text origin saved n s) {count : Nat} : s.source.Admits count ↔ origin.source.Admits count :=
  h.leads.evolves.admits

/-- Where the cursor is at its limit, there has not been room. -/
theorem not_hasRoom (h : Beyond text origin saved n s) (hn : n ≤ text.length - origin.index)
    (hlimit : counterLimit ≤ s.source.cursor) : ¬origin.position.HasRoom text := by
  intro hroom
  have hlt := (hroom n hn).1
  have hindex : (origin.position.along text n).index = s.index := congrArg Position.index h.position.symm
  have hcursor : s.index = s.source.cursor := h.index.trans h.cursor.symm
  omega

/-! #### Marks -/

theorem mark (h : Beyond text origin saved n s) (journal : Journal) :
    ∃ after journal', Stream.mark s journal = ⟨.ok ⟨saved.length + 1⟩, after, journal'⟩ ∧
      Beyond text origin (saved ++ [origin.position.along text n]) n after ∧ after.source = s.source := by
  obtain ⟨marks, hmark, hvalid, -, hentries⟩ := mark_of_valid h.marks journal
  rw [h.depth] at hmark
  refine ⟨_, _, hmark, { h with marks := hvalid, entries := ?_ }, rfl⟩
  rw [hentries, h.entries, h.position]

/-- The innermost mark is open, and closing it leaves the others. -/
theorem close {p : Position} (h : Beyond text origin (saved ++ [p]) n s) :
    s.marks.isOpen ⟨saved.length + 1⟩ = true ∧
      Beyond text origin saved n { s with marks := s.marks.close ⟨saved.length + 1⟩ } := by
  have hdepth := h.depth
  rw [List.length_append, List.length_singleton] at hdepth
  have hopen : s.marks.isOpen ⟨saved.length + 1⟩ = true := by
    rw [MarkStack.isOpen_iff, hdepth]
    exact ⟨Nat.le_add_left 1 _, Nat.le_refl _⟩
  refine ⟨hopen, { h with marks := h.marks.close hopen, entries := ?_ }⟩
  rw [MarkStack.entries_close hopen, h.entries, Nat.add_sub_cancel, List.take_left]

theorem release {p : Position} (h : Beyond text origin (saved ++ [p]) n s) (journal : Journal) :
    ∃ after journal', Stream.release ⟨saved.length + 1⟩ s journal = ⟨.ok (), after, journal'⟩ ∧
      Beyond text origin saved n after ∧ after.source = s.source := by
  obtain ⟨hopen, hclosed⟩ := h.close
  exact ⟨_, _, release_of_isOpen hopen journal, hclosed, rfl⟩

section

variable {p : Position} {k : Nat} (hback : p.index = origin.index + n) (h : Beyond text origin (saved ++ [p]) (n + k) s)

include hback h

/-- The way back to the innermost mark leads to where it was set, if the window admits it. -/
theorem rewindTo (hp : p = origin.position.along text n) (hadmits : s.source.Admits k) (journal : Journal) :
    ∃ after journal', Stream.rewindTo ⟨saved.length + 1⟩ s journal = ⟨.ok (), after, journal'⟩ ∧
      Beyond text origin saved n after := by
  obtain ⟨hopen, hclosed⟩ := h.close
  have hsaved : s.marks.entries[saved.length + 1 - 1]? = some p := by
    rw [h.entries, Nat.add_sub_cancel, List.getElem?_concat_length]
  have hindex := h.index
  have hcursor := h.cursor
  have hway : s.index - p.index = k := by omega
  obtain ⟨journal', hrewind⟩ :=
    rewindTo_of_admits h.marks hopen hsaved (by omega) (hway.symm ▸ hadmits) (by omega) journal
  have hcursorBack : s.source.cursor - (s.index - p.index) = origin.index + n := by omega
  exact ⟨_, journal', hrewind, h.leads.takeBack _, hcursorBack, hback, hp, hclosed.marks, hclosed.entries,
    hclosed.folds⟩

/-- The way back to the innermost mark is refused, if the window does not admit it, and nothing moves. -/
theorem rewindTo_of_not_admits (hadmits : ¬s.source.Admits k) (journal : Journal) :
    ∃ window journal', s.source.history.window = some window ∧ window < k ∧
      Stream.rewindTo ⟨saved.length + 1⟩ s journal =
        ⟨.error (.fault (.backupWindowExceeded k window)), s, journal'⟩ := by
  obtain ⟨hopen, -⟩ := h.close
  obtain ⟨q, hq, hrewind⟩ := rewindTo_of_isOpen h.marks hopen journal
  rw [h.entries, Nat.add_sub_cancel, List.getElem?_concat_length, Option.some.injEq] at hq
  subst hq
  have hindex := h.index
  have hway : s.index - p.index = k := by omega
  have hpos : 0 < k := Nat.pos_of_ne_zero fun hzero => hadmits (hzero ▸ fun _ _ => Nat.zero_le _)
  have hlt : p.index < s.index := by omega
  obtain ⟨window, hwindow, hlt, hseek⟩ := seek_of_not_admits hlt (hway.symm ▸ hadmits)
    (journal.push (.rewinding ⟨saved.length + 1⟩ s.position p))
  rw [hway] at hlt hseek
  exact ⟨window, _, hwindow, hlt, hrewind.trans (Action.bind_of_error hseek)⟩

end

/-! #### Reading -/

variable (hvalid : origin.Valid text)

include hvalid

theorem valid_source (h : Beyond text origin saved n s) : s.source.Valid ∧ s.source.text = text := by
  have hsame := h.leads.evolves.same hvalid.source
  exact ⟨hsame.valid, hsame.text.trans hvalid.text_eq⟩

/-- What has been passed can be cut out. -/
theorem substring {k : Nat} (h : Beyond text origin saved (n + k) s) (hle : origin.index + n + k ≤ text.length)
    (journal : Journal) :
    Stream.substring (origin.index + n) (origin.index + n + k) s journal =
      ⟨.ok (String.ofList ((text.drop (origin.index + n)).take k)), s, journal⟩ := by
  obtain ⟨hsource, htext⟩ := h.valid_source hvalid
  have hcursor := h.cursor
  have hstop : origin.index + n + k ≤ s.source.retained := by
    rcases hsource.reach with hreach | hempty
    · omega
    · rw [Source.retained_of_remaining hempty, htext]
      exact hle
  have hrange := Source.range_of_le (Nat.le_add_right (origin.index + n) k) hstop
  rw [Nat.add_sub_cancel_left, htext] at hrange
  unfold Stream.substring
  rw [hrange]

/-- A read either delivers the symbol at the place, or fails there, or finds that there is no room. -/
inductive Reads (text : List Char) (origin : Stream) (n : Nat) (s : Stream) : Outcome Source Symbol → Prop
  | delivered {source : Source} {between : Journal} (hleads : s.source.Leads source)
      (hcursor : source.cursor = s.source.cursor + 1) :
      Reads text origin n s ⟨.ok (.ofText text (origin.index + n)), source, between⟩
  | failed {f : Fault} {source : Source} {between : Journal} (hleads : s.source.Leads source)
      (hcursor : source.cursor = s.source.cursor) : Reads text origin n s ⟨.error (.fault f), source, between⟩
  | full {source : Source} {between : Journal} (hlimit : counterLimit ≤ s.source.cursor) :
      Reads text origin n s ⟨.error (.breach .counterOverflow), source, between⟩

theorem reads (h : Beyond text origin saved n s) (journal : Journal) :
    Reads text origin n s (s.source.read journal) := by
  obtain ⟨hsource, htext⟩ := h.valid_source hvalid
  have hleads := Source.Leads.refl.read (s := s.source) journal
  have hreads := Source.read_reads hsource journal
  have hmoves := s.source.read_cursor journal
  generalize s.source.read journal = o at hleads hreads hmoves ⊢
  obtain ⟨result, source, between⟩ := o
  match result with
  | .ok symbol =>
      obtain ⟨-, -, rfl, hcursor, -⟩ := hreads
      rw [htext, h.cursor]
      exact .delivered hleads hcursor
  | .error (.fault f) => exact .failed hleads hmoves.2
  | .error (.breach b) =>
      obtain ⟨rfl, -, hlimit⟩ := hmoves
      exact .full hlimit

variable (hfull : ¬origin.position.HasRoom text → full)

include hfull

/-- A symbol of the text that is read is passed. -/
theorem advance (h : Beyond text origin saved n s) (hlt : origin.index + n < text.length) {symbol : Symbol}
    (hread : s.source.read journal = ⟨.ok symbol, source, between⟩) :
    (Stream.advance s journal).Answers full fun _ after =>
      Beyond text origin saved (n + 1) after ∧ after.source = source := by
  have hreads := h.reads hvalid journal
  rw [hread] at hreads
  cases hreads with
  | delivered hleads hcursor =>
      have hposition := h.position
      have hindex := h.index
      have hplace : origin.position.index = origin.index := rfl
      rw [advance_of_read hread, pass_eq]
      dsimp only
      rcases s.position.advance_cases (.ofText text (origin.index + n)) with hnext | ⟨hbreach, -⟩
      · have halong : (s.position.next (.ofText text (origin.index + n))) = origin.position.along text (n + 1) := by
          rw [Position.along, ← hposition, hplace, hnext]
        have hstep := Position.index_next s.position (.ofText text (origin.index + n))
        rw [hnext]
        refine Outcome.answers_ok ⟨{ h with
          leads := h.leads.trans hleads, cursor := ?_, index := ?_, position := halong }, rfl⟩
        · rw [hcursor, h.cursor, Nat.add_assoc]
        · exact hstep.trans (congrArg (· + 1) hindex)
      · refine Outcome.ends_full ?_ (hfull fun hroom => ?_)
        · rw [hbreach]
          rfl
        · rw [hposition, ← hplace, hroom.advance (by omega)] at hbreach
          cases hbreach

/-! #### Where the reader does not fail -/

variable (hreliable : origin.source.Reliable)

include hreliable

omit hfull in
theorem reliable (h : Beyond text origin saved n s) : s.source.Reliable :=
  h.leads.evolves.reliable hvalid.source hreliable

omit hfull in
theorem readAhead_ne_fault (h : Beyond text origin saved n s) (count : Nat) (journal : Journal) (f : Fault) :
    (Source.readAhead count s.source journal).result ≠ .error (.fault f) := by
  intro hfail
  rcases Source.readAhead_of_reliable (h.valid_source hvalid).1 (h.reliable hvalid hreliable) count journal with
    hok | ⟨hisFull, -⟩
  · rw [hfail] at hok
    cases hok
  · rw [Outcome.IsFull, hfail] at hisFull
    cases hisFull

theorem advance_of_reliable (h : Beyond text origin saved n s) (hlt : origin.index + n < text.length)
    (journal : Journal) :
    (Stream.advance s journal).Answers full fun _ after => Beyond text origin saved (n + 1) after := by
  rcases Source.read_of_reliable (h.valid_source hvalid).1 (h.reliable hvalid hreliable) journal with
    ⟨source, between, hread, -⟩ | ⟨hisFull, hlimit⟩
  · exact (h.advance hvalid hfull hlt hread).mono fun _ after ⟨_, hresult, hafter, _⟩ => ⟨(), hresult, hafter⟩
  · generalize hread : s.source.read journal = o at hisFull
    obtain ⟨result, source, between⟩ := o
    cases hisFull
    refine Outcome.ends_full ?_ (hfull (h.not_hasRoom (by omega) hlimit))
    rw [advance_of_read_error hread]
    rfl

omit hfull

variable (hfar : counterLimit < origin.index + n + i → full)

include hfar

/-- A symbol ahead is seen, if the window admits that, and the stream stays where it is. -/
theorem lookahead (hi : 0 < i) (hadmits : origin.source.Admits i) (h : Beyond text origin saved n s)
    (journal : Journal) :
    (Stream.lookahead i s journal).Answers full fun symbol after =>
      symbol = some ((Symbol.ofText text (origin.index + n + (i - 1))).seen origin.caseFold) ∧
        Beyond text origin saved n after := by
  obtain ⟨hsource, htext⟩ := h.valid_source hvalid
  have hsees := lookahead_sees hsource (h.reliable hvalid hreliable) hi journal
  rw [h.cursor] at hsees
  refine (hsees.because hfar).mono ?_
  rintro _ _ (⟨hleads, hcursor, -⟩ | ⟨-, hwindow, hlt⟩)
  · refine ⟨_, rfl, ?_, h.of_leads hleads hcursor⟩
    rw [htext, h.cursor, h.folds]
  · exact absurd (h.admits.mpr hadmits _ hwindow) (Nat.not_le.mpr hlt)

/-- A lookahead that the window does not admit is refused, and the stream shows the same but for the cursor. -/
theorem lookahead_of_not_admits (hadmits : ¬origin.source.Admits i) (h : Beyond text origin saved n s)
    (journal : Journal) :
    (Stream.lookahead i s journal).Ends full fun result after =>
      (∃ window, origin.source.history.window = some window ∧ window < i ∧
        result = .error (.fault (.backupWindowExceeded i window))) ∧
      after.position = s.position ∧ after.marks = s.marks := by
  have hi : 0 < i := Nat.pos_of_ne_zero fun hzero => hadmits fun window _ => hzero ▸ Nat.zero_le window
  have hsees := lookahead_sees (h.valid_source hvalid).1 (h.reliable hvalid hreliable) hi journal
  rw [h.cursor] at hsees
  refine (hsees.because hfar).mono ?_
  rintro _ _ (⟨-, -, hadmitted⟩ | ⟨hleads, hwindow, hlt⟩)
  · exact absurd (h.admits.mp hadmitted) hadmits
  · exact ⟨⟨_, h.leads.evolves.window ▸ hwindow, hlt, rfl⟩, rfl, rfl⟩

omit hfar

/-- The next symbol is seen, if the window admits that one symbol is taken back. -/
theorem peek (hfull : ¬origin.position.HasRoom text → full) (hone : origin.source.Admits 1)
    (hn : n ≤ text.length - origin.index) (h : Beyond text origin saved n s) (journal : Journal) :
    (Stream.lookahead 1 s journal).Answers full fun symbol after =>
      symbol = some ((Symbol.ofText text (origin.index + n)).seen origin.caseFold) ∧ Beyond text origin saved n after :=
  h.lookahead hvalid hreliable (fun hlimit => hfull (h.not_hasRoom hn (by rw [h.cursor]; omega))) Nat.one_pos hone
    journal

end Beyond

end Backtrack.Stream
