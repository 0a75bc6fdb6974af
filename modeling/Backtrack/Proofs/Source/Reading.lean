import Backtrack.Source
import Backtrack.Proofs.Source.Decoding

/-! Reading a source. The text of a source is what it retains and what it has still to decode; reading
delivers the symbols of the text one after another, and neither reading nor backing up changes the text. -/

namespace Backtrack

/-- The symbol number `k` of a text, behind which the input ends for ever. -/
def Symbol.ofText (text : List Char) (k : Nat) : Symbol :=
  text[k]?.elim .eof .char

namespace Source

def text (s : Source) : List Char :=
  s.history.chars.toList ++ Utf8.decode s.decoder.remaining

/-- A source that can go on. The cursor passes the end of what is retained only at the end of the
input. -/
structure Valid (s : Source) : Prop where
  decoder : s.decoder.Valid
  reach : s.cursor ≤ s.retained ∨ s.decoder.remaining = []

/-- `s'` is `Valid` and has the text, the window and the ending of the reader of `s`. -/
structure Same (s s' : Source) : Prop where
  valid : s'.Valid
  text : s'.text = s.text
  window : s'.history.window = s.history.window
  ending : s'.decoder.reader.ending = s.decoder.reader.ending

theorem Same.refl {s : Source} (h : s.Valid) : Same s s :=
  ⟨h, rfl, rfl, rfl⟩

theorem Same.trans {s s' s'' : Source} (h : Same s s') (h' : Same s' s'') : Same s s'' :=
  ⟨h'.valid, h'.text.trans h.text, h'.window.trans h.window, h'.ending.trans h.ending⟩

theorem valid_ofText (text : List Char) (window : Option Nat) : (ofText text window).Valid :=
  ⟨⟨Nat.one_pos, trivial⟩, .inl (Nat.zero_le _)⟩

theorem valid_ofReader {reader : Reader} (h : reader.ending.IsFixed) (window : Option Nat)
    (chunkSize : Nat) : (ofReader reader window chunkSize).Valid :=
  ⟨⟨Nat.lt_of_lt_of_le Nat.one_pos (Nat.le_max_right _ _), h⟩, .inl (Nat.zero_le _)⟩

theorem text_ofText (text : List Char) (window : Option Nat) : (ofText text window).text = text := by
  have hremaining : Decoder.finished.remaining = [] := rfl
  simp [Source.text, ofText, History.ofChars, hremaining, Utf8.decode]

theorem text_ofReader (reader : Reader) (window : Option Nat) (chunkSize : Nat) :
    (ofReader reader window chunkSize).text = Utf8.decode (Reader.upcoming reader.deliveries) := by
  have hremaining : (Decoder.ofReader reader chunkSize).remaining = Reader.upcoming reader.deliveries := rfl
  simp [Source.text, ofReader, History.ofChars, hremaining]

/-! ### Refilling -/

/-- The symbol at the cursor is settled: it is retained, or there is none. -/
def Settled (s : Source) : Prop :=
  s.cursor < s.retained ∨ s.decoder.remaining = []

theorem getElem?_text_of_settled {s : Source} (h : s.Settled) :
    s.text[s.history.cursor]? = s.history.chars[s.history.cursor]? := by
  rcases h with h | h
  · have hlt : s.history.cursor < s.history.chars.toList.length := h
    rw [Source.text, List.getElem?_append_left hlt, Array.getElem?_toList]
  · rw [Source.text, h, Utf8.decode, List.append_nil, Array.getElem?_toList]

theorem current_of_settled {s : Source} (h : s.Settled) :
    s.history.current = .ofText s.text s.cursor := by
  rw [Symbol.ofText, cursor, getElem?_text_of_settled h, History.current]
  cases s.history.chars[s.history.cursor]? <;> rfl

/-- What refilling does: it settles the symbol at the cursor or stops at a failure of the reader. -/
def Refills (s : Source) : Outcome Source Unit → Prop
  | ⟨.ok (), after, _⟩ =>
      Same s after ∧ after.decoder.failures = s.decoder.failures ∧ after.cursor = s.cursor ∧ after.Settled
  | ⟨.error stop, after, _⟩ =>
      after.history = s.history ∧ Decoder.Pulled s.decoder after.decoder ∧
        ∃ reason, stop = .fault (.io reason) ∧ Decoder.Surfaces reason s.decoder after.decoder

theorem refill_refills {s : Source} (hvalid : s.Valid) (journal : Journal) :
    s.Refills (s.refill journal) := by
  obtain ⟨history, decoder⟩ := s
  unfold refill
  dsimp only
  split_ifs with hexhausted
  · simp only [Bool.and_eq_true, History.isExhausted, decide_eq_true_eq] at hexhausted
    have hdecodes := @Decoder.next_decodes history.retained decoder hvalid.decoder journal
    generalize decoder.next history.retained journal = o at hdecodes ⊢
    obtain ⟨result, after, journal'⟩ := o
    match result with
    | .ok (some c) =>
        obtain ⟨hafter, hfailures, hending, hdecode⟩ := hdecodes
        have hne : decoder.remaining ≠ [] := by
          intro h
          rw [h, Utf8.decode] at hdecode
          cases hdecode
        have hcursor : history.cursor ≤ history.chars.size := hvalid.reach.resolve_right hne
        have hreach : history.cursor < (history.push c).chars.size := by
          simpa [History.push] using Nat.lt_succ_of_le hcursor
        refine ⟨⟨⟨hafter, .inl hreach.le⟩, ?_, rfl, hending⟩, hfailures, rfl, .inl hreach⟩
        simp [Source.text, History.push, hdecode]
    | .ok none =>
        obtain ⟨hpulled, hfailures, hempty⟩ := hdecodes
        have hafter : after.remaining = [] := hpulled.remaining_eq.trans hempty
        refine ⟨⟨⟨hpulled.valid hvalid.decoder, .inr hafter⟩, ?_, rfl, hpulled.ending⟩, hfailures, rfl,
          .inr hafter⟩
        simp [Source.text, hafter, hempty]
    | .error stop =>
        obtain ⟨hpulled, hsurfaces⟩ := hdecodes
        exact ⟨rfl, hpulled, hsurfaces⟩
  · refine ⟨Same.refl hvalid, rfl, rfl, ?_⟩
    simp only [Bool.and_eq_true, History.isExhausted, decide_eq_true_eq, not_and_or, not_le,
      Bool.not_eq_true', Bool.not_eq_false, Decoder.isFinished, List.isEmpty_iff] at hexhausted
    rcases hexhausted with h | ⟨hdrained, hempty⟩
    · exact .inl h
    · exact .inr (by simp [Decoder.remaining, Decoder.upcoming, hdrained, hempty])

/-! ### Reading -/

/-- What a read does: it delivers the symbol at the cursor, stops at a failure of the reader where it
stood, or finds the cursor at its limit. -/
def Reads (s : Source) : Outcome Source Symbol → Prop
  | ⟨.ok symbol, after, _⟩ =>
      Same s after ∧ after.decoder.failures = s.decoder.failures ∧ symbol = .ofText s.text s.cursor ∧
        after.cursor = s.cursor + 1 ∧ s.cursor < counterLimit
  | ⟨.error (.fault f), after, _⟩ =>
      after.history = s.history ∧ Decoder.Pulled s.decoder after.decoder ∧
        ∃ reason, f = .io reason ∧ Decoder.Surfaces reason s.decoder after.decoder
  | ⟨.error (.breach b), after, _⟩ =>
      b = .counterOverflow ∧ counterLimit ≤ s.cursor ∧ Same s after ∧
        after.decoder.failures = s.decoder.failures ∧ after.cursor = s.cursor

theorem read_eq (s : Source) (journal : Journal) :
    s.read journal = Action.bind refill (fun _ => onHistory History.next) s journal :=
  rfl

theorem read_reads {s : Source} (hvalid : s.Valid) (journal : Journal) : s.Reads (s.read journal) := by
  have hrefills := refill_refills hvalid journal
  rw [read_eq, Action.bind]
  generalize s.refill journal = o at hrefills ⊢
  obtain ⟨result, after, journal'⟩ := o
  match result with
  | .ok () =>
      obtain ⟨hsame, hfailures, hcursor, hsettled⟩ := hrefills
      obtain ⟨history, decoder⟩ := after
      have hlimit : history.cursor = s.cursor := hcursor
      dsimp only [onHistory, History.next]
      split_ifs with h
      · exact ⟨rfl, hlimit ▸ h, hsame, hfailures, hcursor⟩
      · have hcurrent := current_of_settled hsettled
        rw [hsame.text, hcursor] at hcurrent
        refine ⟨⟨⟨hsame.valid.decoder, ?_⟩, hsame.text, hsame.window, hsame.ending⟩, hfailures, hcurrent,
          congrArg (· + 1) hlimit, by omega⟩
        exact hsettled
  | .error stop =>
      obtain ⟨hhistory, hpulled, reason, rfl, hsurfaces⟩ := hrefills
      exact ⟨hhistory, hpulled, reason, rfl, hsurfaces⟩

theorem Same.of_pulled {s after : Source} (hvalid : s.Valid) (hhistory : after.history = s.history)
    (hpulled : Decoder.Pulled s.decoder after.decoder) : Same s after := by
  have hremaining := hpulled.remaining_eq
  refine ⟨⟨hpulled.valid hvalid.decoder, ?_⟩, ?_, congrArg History.window hhistory, hpulled.ending⟩
  · rw [cursor, retained, hhistory, hremaining]
    exact hvalid.reach
  · rw [Source.text, Source.text, hhistory, hremaining]

theorem Reads.same {s : Source} {o : Outcome Source Symbol} (hvalid : s.Valid) (h : s.Reads o) :
    Same s o.state := by
  obtain ⟨result, after, journal⟩ := o
  match result with
  | .ok symbol => exact h.1
  | .error (.fault f) => exact .of_pulled hvalid h.1 h.2.1
  | .error (.breach b) => exact h.2.2.1

/-- The reader of the source brings no failure. -/
structure Reliable (s : Source) : Prop where
  ending : s.decoder.reader.ending = .finished
  failures : s.decoder.failures = []

theorem Reliable.not_surfaces {s after : Source} (h : s.Reliable) {reason : String} :
    ¬Decoder.Surfaces reason s.decoder after.decoder := by
  rintro (hnext | hlast)
  · rw [h.failures] at hnext
    cases hnext
  · rw [h.ending] at hlast
    cases hlast

theorem Reads.reliable {s : Source} {o : Outcome Source Symbol} (hvalid : s.Valid) (hreliable : s.Reliable)
    (h : s.Reads o) : o.state.Reliable := by
  refine ⟨(h.same hvalid).ending.trans hreliable.ending, ?_⟩
  obtain ⟨result, after, journal⟩ := o
  match result with
  | .ok symbol => exact h.2.1.trans hreliable.failures
  | .error (.fault f) =>
      obtain ⟨-, -, reason, -, hsurfaces⟩ := h
      exact absurd hsurfaces hreliable.not_surfaces
  | .error (.breach b) => exact h.2.2.2.1.trans hreliable.failures

/-- Where the reader does not fail, a read delivers the symbol at the cursor or finds the cursor at its
limit. -/
theorem read_of_reliable {s : Source} (hvalid : s.Valid) (hreliable : s.Reliable) (journal : Journal) :
    (∃ after journal', s.read journal = ⟨.ok (.ofText s.text s.cursor), after, journal'⟩ ∧ Same s after ∧
      after.Reliable ∧ after.cursor = s.cursor + 1) ∨
    ((s.read journal).result = .error (.breach .counterOverflow) ∧ counterLimit ≤ s.cursor) := by
  have hreads := read_reads hvalid journal
  have hafter := hreads.reliable hvalid hreliable
  generalize s.read journal = o at hreads hafter ⊢
  obtain ⟨result, after, journal'⟩ := o
  match result with
  | .ok symbol =>
      obtain ⟨hsame, -, rfl, hcursor, -⟩ := hreads
      exact .inl ⟨after, journal', rfl, hsame, hafter, hcursor⟩
  | .error (.fault f) =>
      obtain ⟨-, -, reason, -, hsurfaces⟩ := hreads
      exact absurd hsurfaces hreliable.not_surfaces
  | .error (.breach b) =>
      obtain ⟨rfl, hlimit, -⟩ := hreads
      exact .inr ⟨rfl, hlimit⟩

theorem refill_extends (s : Source) (journal : Journal) :
    Journal.Extends (·.isReading) journal (s.refill journal).journal := by
  obtain ⟨history, decoder⟩ := s
  have hnext := Decoder.next_extends history.retained decoder journal
  unfold refill
  dsimp only
  split_ifs
  · split <;> (rename_i heq; rw [heq] at hnext; exact hnext)
  · exact .refl journal

theorem read_extends (s : Source) (journal : Journal) :
    Journal.Extends (·.isReading) journal (s.read journal).journal := by
  have hrefill := s.refill_extends journal
  rw [read_eq, Action.bind]
  generalize s.refill journal = o at hrefill ⊢
  obtain ⟨result, ⟨history, decoder⟩, journal'⟩ := o
  match result with
  | .ok () =>
      dsimp only [onHistory, History.next]
      split_ifs <;> exact hrefill
  | .error stop => exact hrefill

/-- What reads and backups leave of `s` in `s'`: the window in any case, and all of `Same` if `s` is `Valid`, as the
text of a reader is settled from the start only if the reader ends in a fixed way. -/
structure Evolves (s s' : Source) : Prop where
  window : s'.history.window = s.history.window
  same : s.Valid → Same s s'
  reliable : s.Valid → s.Reliable → s'.Reliable

theorem Evolves.refl (s : Source) : Evolves s s :=
  ⟨rfl, .refl, fun _ h => h⟩

theorem Evolves.trans {s s' s'' : Source} (h : Evolves s s') (h' : Evolves s' s'') : Evolves s s'' :=
  ⟨h'.window.trans h.window, fun hvalid => (h.same hvalid).trans (h'.same (h.same hvalid).valid),
    fun hvalid hreliable => h'.reliable (h.same hvalid).valid (h.reliable hvalid hreliable)⟩

theorem refill_cursor (s : Source) (journal : Journal) :
    (s.refill journal).state.cursor = s.cursor ∧
      (s.refill journal).state.history.window = s.history.window ∧
      ∀ stop, (s.refill journal).result = .error stop → ∃ reason, stop = .fault (.io reason) := by
  obtain ⟨history, decoder⟩ := s
  unfold refill
  dsimp only
  split_ifs
  · split
    · exact ⟨rfl, rfl, fun _ h => by cases h⟩
    · exact ⟨rfl, rfl, fun _ h => by cases h⟩
    · rename_i stop after journal' hnext
      refine ⟨rfl, rfl, fun stop' h => ?_⟩
      cases h
      obtain ⟨reason, rfl⟩ := Decoder.next_error (congrArg Outcome.result hnext)
      exact ⟨_, rfl⟩
  · exact ⟨rfl, rfl, fun _ h => by cases h⟩

/-- The outcomes of `read`, whatever the reader. `delivered`: the cursor has passed a symbol. `failed`: it is where it
was. `full`: it is at its limit. -/
inductive Delivers (s : Source) (journal : Journal) : Outcome Source Symbol → Prop
  | delivered {symbol : Symbol} {after : Source} {journal' : Journal} (hevolves : s.Evolves after)
      (hreading : Journal.Extends (·.isReading) journal journal') (hcursor : after.cursor = s.cursor + 1)
      (hsymbol : s.Valid → symbol = .ofText s.text s.cursor) :
      Delivers s journal ⟨.ok symbol, after, journal'⟩
  | failed {f : Fault} {after : Source} {journal' : Journal} (hevolves : s.Evolves after)
      (hreading : Journal.Extends (·.isReading) journal journal') (hcursor : after.cursor = s.cursor) :
      Delivers s journal ⟨.error (.fault f), after, journal'⟩
  | full {after : Source} {journal' : Journal} (hlimit : counterLimit ≤ s.cursor) :
      Delivers s journal ⟨.error (.breach .counterOverflow), after, journal'⟩

theorem read_evolves (s : Source) (journal : Journal) : s.Evolves (s.read journal).state := by
  refine ⟨?_, fun hvalid => (read_reads hvalid journal).same hvalid,
    fun hvalid hreliable => (read_reads hvalid journal).reliable hvalid hreliable⟩
  have hrefill := s.refill_cursor journal
  rw [read_eq, Action.bind]
  generalize s.refill journal = o at hrefill ⊢
  obtain ⟨result, ⟨history, decoder⟩, journal'⟩ := o
  cases result with
  | ok =>
      dsimp only [onHistory, History.next]
      split_ifs <;> exact hrefill.2.1
  | error stop => exact hrefill.2.1

theorem read_delivers (s : Source) (journal : Journal) : s.Delivers journal (s.read journal) := by
  have hevolves := s.read_evolves journal
  have hreading := s.read_extends journal
  have hsymbol : s.Valid → ∀ symbol, (s.read journal).result = .ok symbol →
      symbol = .ofText s.text s.cursor := by
    intro hvalid symbol h
    have hreads := read_reads hvalid journal
    generalize s.read journal = o at h hreads
    obtain ⟨result, after, journal'⟩ := o
    cases h
    exact hreads.2.2.1
  have hrefill := s.refill_cursor journal
  rw [read_eq, Action.bind] at hevolves hreading hsymbol ⊢
  generalize s.refill journal = o at hrefill hevolves hreading hsymbol ⊢
  obtain ⟨result, ⟨history, decoder⟩, journal'⟩ := o
  obtain ⟨hcursor, -, hfault⟩ := hrefill
  have hlimit : history.cursor = s.cursor := hcursor
  cases result with
  | ok =>
      dsimp only [onHistory, History.next] at hevolves hreading hsymbol ⊢
      split_ifs at hevolves hreading hsymbol ⊢ with h
      · exact .full (hlimit ▸ h)
      · exact .delivered hevolves hreading (congrArg (· + 1) hlimit) fun hvalid => hsymbol hvalid _ rfl
  | error stop =>
      obtain ⟨f, rfl⟩ := hfault stop rfl
      exact .failed hevolves hreading hcursor

/-! ### Backing up -/

/-- The window lets a backup of `count` reads pass. -/
def Admits (s : Source) (count : Nat) : Prop :=
  ∀ window, s.history.window = some window → count ≤ window

/-- The source with the last `count` reads taken back. -/
def takeBack (s : Source) (count : Nat) : Source :=
  { s with history := { s.history with cursor := s.cursor - count } }

theorem takeBack_zero (s : Source) : s.takeBack 0 = s :=
  rfl

theorem takeBack_takeBack (s : Source) (count more : Nat) :
    (s.takeBack count).takeBack more = s.takeBack (count + more) := by
  have hcursor : s.cursor - count - more = s.cursor - (count + more) := Nat.sub_sub _ _ _
  simp only [takeBack, cursor] at hcursor ⊢
  rw [hcursor]

theorem backup_of_admits {s : Source} {count : Nat} (h : s.Admits count) (hle : count ≤ s.cursor)
    (journal : Journal) : backup count s journal = ⟨.ok (), s.takeBack count, journal⟩ := by
  have hlt : ¬s.history.cursor < count := not_lt_of_ge hle
  unfold backup onHistory History.backup
  dsimp only
  cases hwindow : s.history.window with
  | none =>
      simp only [History.backup.takeBack, if_neg hlt]
      rfl
  | some window =>
      simp only [History.backup.takeBack, if_neg hlt, if_neg (not_lt_of_ge (h window hwindow))]
      rfl

theorem backup_of_not_admits {s : Source} {count : Nat} (h : ¬s.Admits count) (journal : Journal) :
    ∃ window, s.history.window = some window ∧ window < count ∧
      backup count s journal = ⟨.error (.fault (.backupWindowExceeded count window)), s,
        journal.push (.backupBeyondWindow count window)⟩ := by
  simp only [Admits, not_forall, not_le] at h
  obtain ⟨window, hwindow, hlt⟩ := h
  refine ⟨window, hwindow, hlt, ?_⟩
  unfold backup onHistory History.backup
  simp only [hwindow, if_pos hlt]

theorem backup_of_lt {s : Source} {count : Nat} (h : s.Admits count) (hlt : s.cursor < count)
    (journal : Journal) :
    backup count s journal = ⟨.error (.fault (.backupUnderflow count s.cursor)), s,
      journal.push (.backupBeforeStart count s.cursor)⟩ := by
  have hcursor : s.history.cursor < count := hlt
  unfold backup onHistory History.backup
  dsimp only
  cases hwindow : s.history.window with
  | none => simp only [History.backup.takeBack, if_pos hcursor, cursor]
  | some window =>
      simp only [History.backup.takeBack, if_pos hcursor, if_neg (not_lt_of_ge (h window hwindow)), cursor]

theorem Same.takeBack {s : Source} (h : s.Valid) (count : Nat) : Same s (s.takeBack count) :=
  ⟨⟨h.decoder, h.reach.imp_left ((Nat.sub_le _ _).trans ·)⟩, rfl, rfl, rfl⟩

theorem Evolves.takeBack (s : Source) (count : Nat) : Evolves s (s.takeBack count) :=
  ⟨rfl, fun hvalid => .takeBack hvalid count, fun _ h => ⟨h.ending, h.failures⟩⟩

/-- The outcomes of `backup count`. `taken`: the cursor is `count` reads back. `beyondWindow`: the window is less than
`count`. `beforeStart`: there are not `count` reads. -/
inductive TakesBack (s : Source) (count : Nat) (journal : Journal) : Outcome Source Unit → Prop
  | taken (hadmits : s.Admits count) (hle : count ≤ s.cursor) :
      TakesBack s count journal ⟨.ok (), s.takeBack count, journal⟩
  | beyondWindow {window : Nat} (hwindow : s.history.window = some window) (hlt : window < count) :
      TakesBack s count journal ⟨.error (.fault (.backupWindowExceeded count window)), s,
        journal.push (.backupBeyondWindow count window)⟩
  | beforeStart (hlt : s.cursor < count) :
      TakesBack s count journal ⟨.error (.fault (.backupUnderflow count s.cursor)), s,
        journal.push (.backupBeforeStart count s.cursor)⟩

theorem backup_takesBack (s : Source) (count : Nat) (journal : Journal) :
    s.TakesBack count journal (backup count s journal) := by
  by_cases hadmits : s.Admits count
  · by_cases hle : count ≤ s.cursor
    · rw [backup_of_admits hadmits hle]
      exact .taken hadmits hle
    · rw [backup_of_lt hadmits (by omega)]
      exact .beforeStart (by omega)
  · obtain ⟨window, hwindow, hlt, h⟩ := backup_of_not_admits hadmits journal
    rw [h]
    exact .beyondWindow hwindow hlt

theorem TakesBack.evolves {s : Source} {count : Nat} {journal : Journal} {o : Outcome Source Unit}
    (h : s.TakesBack count journal o) : s.Evolves o.state := by
  cases h with
  | taken hadmits hle => exact .takeBack s count
  | beyondWindow hwindow hlt => exact .refl s
  | beforeStart hlt => exact .refl s

end Source

end Backtrack
