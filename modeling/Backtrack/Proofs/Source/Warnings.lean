import Backtrack.Proofs.Source.Ahead
import Backtrack.Proofs.Source.Runs
import Backtrack.Proofs.Utf8.Pieces

/-! Warnings about bytes. Each piece of the input is decoded once, when it comes to be retained; if it is a byte that
is given up, there is one warning, with the number of the character that stands for it. So the warnings tell exactly
which of the retained characters stand for such bytes. -/

namespace Backtrack

/-- What an event warns of: the number of the character, and the first one of the bytes that are reported. -/
def Event.warning? : Event → Option (Nat × Option UInt8)
  | .invalidLead lead offset => some (offset, some lead)
  | .illFormed bytes offset => some (offset, bytes.head?)
  | .incomplete bytes offset => some (offset, bytes.head?)
  | _ => none

theorem Event.warning?_eq_none {e : Event} (h : e.isDecodingWarning = false) : e.warning? = none := by
  cases e <;> first | rfl | cases h

namespace Journal

/-- The warnings about bytes, in the order in which they have been reported. -/
def warnings (events : List Event) : List (Nat × Option UInt8) :=
  events.filterMap Event.warning?

theorem warnings_append (events more : List Event) : warnings (events ++ more) = warnings events ++ warnings more :=
  List.filterMap_append

theorem warnings_eq_nil {events : List Event} (h : ∀ e ∈ events, e.isDecodingWarning = false) :
    warnings events = [] :=
  List.filterMap_eq_nil_iff.mpr fun e he => Event.warning?_eq_none (h e he)

/-- The warnings that there should be about pieces of which the first one is number `start`. -/
def due (start : Nat) (pieces : List Utf8.Piece) : List (Nat × Option UInt8) :=
  (Utf8.givenUp start pieces).map (Prod.map id some)

theorem due_append (start : Nat) (pieces more : List Utf8.Piece) :
    due start (pieces ++ more) = due start pieces ++ due (start + pieces.length) more := by
  simp [due, Utf8.givenUp_append]

@[simp]
theorem map_fst_due (start : Nat) (pieces : List Utf8.Piece) :
    (due start pieces).map Prod.fst = (Utf8.givenUp start pieces).map Prod.fst := by
  simp [due]

@[simp]
theorem length_due (start : Nat) (pieces : List Utf8.Piece) :
    (due start pieces).length = (Utf8.givenUp start pieces).length :=
  List.length_map _

theorem due_eq_nil {start : Nat} {pieces : List Utf8.Piece} :
    due start pieces = [] ↔ Utf8.givenUp start pieces = [] :=
  List.map_eq_nil_iff

theorem mem_due {pieces : List Utf8.Piece} {index : Nat} {first : Option UInt8} :
    (index, first) ∈ due 0 pieces ↔ ∃ lead, first = some lead ∧ pieces[index]? = some (.stray lead) := by
  simp only [due, List.mem_map, Prod.exists, Utf8.mem_givenUp]
  constructor
  · rintro ⟨_, lead, hstray, ⟨⟩⟩
    exact ⟨lead, rfl, hstray⟩
  · rintro ⟨lead, rfl, hstray⟩
    exact ⟨index, lead, hstray, rfl⟩

end Journal

/-! ### Decoding -/

/-- What is decoded from number `start` on is warned of: the pieces that have gone from what remains are those that
the characters stand for, and what is warned of is what has been given up. -/
def Warns (start : Nat) (before after : List UInt8) (chars : List Char) (journal journal' : Journal) : Prop :=
  ∃ pieces more, Utf8.pieces before = pieces ++ Utf8.pieces after ∧ chars = pieces.map Utf8.Piece.shown ∧
    journal'.toList = journal.toList ++ more ∧ Journal.warnings more = Journal.due start pieces

theorem Warns.of_calm {start : Nat} {before after : List UInt8} {journal journal' : Journal} (h : after = before)
    (hcalm : Journal.Extends (fun e => e.isDecodingWarning = false) journal journal') :
    Warns start before after [] journal journal' := by
  obtain ⟨more, hmore, hall⟩ := hcalm
  exact ⟨[], more, by rw [h, List.nil_append], rfl, hmore, Journal.warnings_eq_nil hall⟩

/-- Reports that are no warnings may come before. -/
theorem Warns.of_extends {start : Nat} {before after : List UInt8} {chars : List Char}
    {journal between journal' : Journal} (h : Warns start before after chars between journal')
    (hcalm : Journal.Extends (fun e => e.isDecodingWarning = false) journal between) :
    Warns start before after chars journal journal' := by
  obtain ⟨pieces, more, hpieces, hchars, hmore, hwarnings⟩ := h
  obtain ⟨calm, hjournal, hall⟩ := hcalm
  refine ⟨pieces, calm ++ more, hpieces, hchars, ?_, ?_⟩
  · rw [hmore, hjournal, List.append_assoc]
  · rw [Journal.warnings_append, Journal.warnings_eq_nil hall, hwarnings, List.nil_append]

theorem Warns.of_piece {start : Nat} {before after : List UInt8} {journal journal' : Journal} (piece : Utf8.Piece)
    (events : List Event) (hpieces : Utf8.pieces before = piece :: Utf8.pieces after)
    (hjournal : journal'.toList = journal.toList ++ events)
    (hevents : Journal.warnings events = Journal.due start [piece]) :
    Warns start before after [piece.shown] journal journal' :=
  ⟨[piece], events, hpieces, rfl, hjournal, hevents⟩

namespace Decoder

theorem fill_calm (d : Decoder) (journal : Journal) :
    Journal.Extends (fun e => e.isDecodingWarning = false) journal (d.fill journal).journal := by
  unfold fill
  dsimp only
  split <;> exact (Journal.Extends.refl journal).push rfl

/-- The characters that the next step of a decoder has delivered. -/
def delivered (o : Outcome Decoder (Option Char)) : List Char :=
  match o.result with
  | .ok c => c.toList
  | .error _ => []

theorem next_warns {index : Nat} {d : Decoder} (hvalid : d.Valid) (journal : Journal) :
    let o := d.next index journal
    Warns index d.remaining o.state.remaining (delivered o) journal o.journal := by
  fun_induction next index d journal with
  | case1 d journal taken htake =>
      rw [front_eq_take] at htake
      cases hbytes : d.undecoded with
      | nil => simp [hbytes, take?] at htake
      | cons lead rest =>
          rw [hbytes] at htake
          have hremaining : d.remaining = lead :: rest ++ d.upcoming := by rw [remaining, hbytes]
          rcases take?_cases htake d.upcoming with ⟨warning, hwarning, rfl, hnone⟩ | ⟨n, c, rfl, hle, hn, hc⟩
          · refine .of_piece (.stray lead) [warning] ?_ (by simp) ?_
            · rw [remaining_skip (by simp [hbytes]), hremaining]
              exact Utf8.pieces_cons_of_none hnone
            · rcases hwarning with rfl | ⟨bytes, hlead, rfl⟩
              · rfl
              · simp [Journal.warnings, Event.warning?, Journal.due, hlead]
          · refine .of_piece (.char c) [] ?_ (by simp) rfl
            rw [remaining_skip (by rwa [hbytes]), hremaining]
            exact Utf8.pieces_cons_of_some hn hc
  | case2 d journal htake hdrained hempty => exact .of_calm rfl (.refl journal)
  | case3 d journal htake hdrained hne =>
      rw [front_eq_take] at htake
      have hupcoming : d.upcoming = [] := if_pos hdrained
      cases hbytes : d.undecoded with
      | nil => exact absurd hbytes hne
      | cons lead rest =>
          rw [hbytes] at htake
          refine .of_piece (.stray lead) [.incomplete (lead :: rest) index] ?_ (by simp) rfl
          rw [remaining_skip (by simp [hbytes]), remaining, hupcoming, List.append_nil, hbytes]
          exact Utf8.pieces_cons_of_none (char?_of_take?_eq_none htake)
  | case4 d journal htake hdrained filled journal' hfill _ ih =>
      have hfills := fill_fills hvalid (by simpa using hdrained) journal
      have hcalm := fill_calm d journal
      rw [hfill] at hfills hcalm
      have hrest := ih (hfills.1.valid hvalid)
      rw [hfills.1.remaining_eq] at hrest
      exact hrest.of_extends hcalm
  | case5 d journal htake hdrained stop filled journal' hfill =>
      have hfills := fill_fills hvalid (by simpa using hdrained) journal
      have hcalm := fill_calm d journal
      rw [hfill] at hfills hcalm
      exact .of_calm hfills.1.remaining_eq hcalm

end Decoder

namespace Source

variable {bytes : List UInt8} {events : List Event} {s : Source} {journal : Journal}

/-- What a read adds to what is retained is warned of. -/
theorem read_warns (hvalid : s.Valid) (journal : Journal) :
    let o := s.read journal
    ∃ chars, o.state.history.chars.toList = s.history.chars.toList ++ chars ∧
      Warns s.retained s.decoder.remaining o.state.decoder.remaining chars journal o.journal := by
  have hrefill : ∃ chars, (s.refill journal).state.history.chars.toList = s.history.chars.toList ++ chars ∧
      Warns s.retained s.decoder.remaining (s.refill journal).state.decoder.remaining chars journal
        (s.refill journal).journal := by
    obtain ⟨history, decoder⟩ := s
    have hnext := @Decoder.next_warns history.retained decoder hvalid.decoder journal
    unfold refill
    dsimp only
    split_ifs
    · generalize decoder.next history.retained journal = o at hnext ⊢
      obtain ⟨result, after, journal'⟩ := o
      match result with
      | .ok (some c) => exact ⟨[c], by simp [History.push], hnext⟩
      | .ok none => exact ⟨[], by simp, hnext⟩
      | .error stop => exact ⟨[], by simp, hnext⟩
    · exact ⟨[], by simp, .of_calm rfl (.refl journal)⟩
  rw [read_eq, Action.bind]
  generalize s.refill journal = o at hrefill ⊢
  obtain ⟨result, ⟨history, decoder⟩, journal'⟩ := o
  cases result with
  | ok =>
      dsimp only [onHistory, History.next]
      split_ifs <;> exact hrefill
  | error stop => exact hrefill

/-- A character that has been retained is read again without a report. -/
theorem read_journal_of_lt (h : s.cursor < s.retained) (journal : Journal) : (s.read journal).journal = journal := by
  obtain ⟨history, decoder⟩ := s
  have hnot : ¬(history.isExhausted && !decoder.isFinished) = true := by
    have hlt : history.cursor < history.retained := h
    simp [History.isExhausted, Nat.not_le.mpr hlt]
  have hrefill : refill ⟨history, decoder⟩ journal = ⟨.ok (), ⟨history, decoder⟩, journal⟩ := if_neg hnot
  rw [read_eq, Action.bind, hrefill]
  dsimp only [onHistory, History.next]
  split_ifs <;> rfl

/-- The source has taken the first pieces of the bytes to be its characters, and the events warn of those that have
been given up. -/
structure Accounts (bytes : List UInt8) (events : List Event) (s : Source) : Prop where
  valid : s.Valid
  pieces : ∃ taken, Utf8.pieces bytes = taken ++ Utf8.pieces s.decoder.remaining ∧
    s.history.chars.toList = taken.map Utf8.Piece.shown ∧ Journal.warnings events = Journal.due 0 taken

theorem accounts_ofReader {deliveries : List Delivery} {ending : Ending} (hfixed : ending.IsFixed)
    (window : Option Nat) (chunkSize : Nat) :
    Accounts (Reader.upcoming deliveries) [] (ofReader ⟨deliveries, ending⟩ window chunkSize) :=
  ⟨valid_ofReader hfixed window chunkSize, [], rfl, rfl, rfl⟩

theorem Accounts.takeBack (h : Accounts bytes events s) (count : Nat) : Accounts bytes events (s.takeBack count) :=
  ⟨(Same.takeBack h.valid count).valid, h.pieces⟩

/-- Reports that are no warnings may be added. -/
theorem Accounts.append (h : Accounts bytes events s) {more : List Event}
    (hcalm : ∀ e ∈ more, e.isDecodingWarning = false) : Accounts bytes (events ++ more) s := by
  obtain ⟨hvalid, taken, hpieces, hchars, hwarnings⟩ := h
  refine ⟨hvalid, taken, hpieces, hchars, ?_⟩
  rw [Journal.warnings_append, Journal.warnings_eq_nil hcalm, List.append_nil, hwarnings]

theorem Accounts.read (h : Accounts bytes events s) (journal : Journal) :
    ∃ more, (s.read journal).journal.toList = journal.toList ++ more ∧
      Accounts bytes (events ++ more) (s.read journal).state := by
  obtain ⟨hvalid, taken, hpieces, hchars, hwarnings⟩ := h
  obtain ⟨chars, hadded, pieces, more, hnext, rfl, hmore, hwarned⟩ := read_warns hvalid journal
  have hlength : s.retained = taken.length := by
    rw [retained, History.retained, ← Array.length_toList, hchars, List.length_map]
  refine ⟨more, hmore, ((s.read_evolves journal).same hvalid).valid, taken ++ pieces, ?_, ?_, ?_⟩
  · rw [hpieces, hnext, List.append_assoc]
  · rw [hadded, hchars, List.map_append]
  · rw [Journal.warnings_append, hwarnings, hwarned, hlength, Journal.due_append, Nat.zero_add]

/-- The journal goes on from `start`, before which the events of `before` have been reported, and all of them account
for the source. -/
def Recounts (bytes : List UInt8) (before : List Event) (start : Journal) (s : Source) (journal : Journal) : Prop :=
  ∃ events, journal.toList = start.toList ++ events ∧ Accounts bytes (before ++ events) s

section

variable {before : List Event} {start : Journal}

theorem recounts_start (h : Accounts bytes before s) : Recounts bytes before start s start :=
  ⟨[], by simp, by simpa using h⟩

theorem Recounts.read (h : Recounts bytes before start s journal) :
    Recounts bytes before start (s.read journal).state (s.read journal).journal := by
  obtain ⟨events, hevents, haccounts⟩ := h
  obtain ⟨more, hmore, hread⟩ := haccounts.read journal
  exact ⟨events ++ more, by rw [hmore, hevents, List.append_assoc], by rwa [← List.append_assoc]⟩

theorem Recounts.takeBack (h : Recounts bytes before start s journal) (count : Nat) :
    Recounts bytes before start (s.takeBack count) journal := by
  obtain ⟨events, hevents, haccounts⟩ := h
  exact ⟨events, hevents, haccounts.takeBack count⟩

theorem Recounts.push (h : Recounts bytes before start s journal) {e : Event} (he : e.isDecodingWarning = false) :
    Recounts bytes before start s (journal.push e) := by
  obtain ⟨events, hevents, haccounts⟩ := h
  refine ⟨events ++ [e], by simp [hevents], ?_⟩
  rw [← List.append_assoc]
  exact haccounts.append (by simpa using he)

theorem backup_recounts (count : Nat) :
    Action.Keeps (Recounts bytes before start) (Recounts bytes before start) (backup count) := by
  refine .of_forall fun s journal h => ?_
  have htakes := s.backup_takesBack count journal
  generalize Source.backup count s journal = o at htakes ⊢
  cases htakes with
  | taken => exact h.takeBack count
  | beyondWindow => exact h.push rfl
  | beforeStart => exact h.push rfl

end

/-- All that a run has reported. -/
def reported (steps : List Step) : List Event :=
  steps.flatMap fun step => step.journal.toList

theorem Accounts.after (commands : List Command) (h : Accounts bytes events s) :
    Accounts bytes (events ++ reported (run s commands)) (s.after commands) := by
  induction commands generalizing s events with
  | nil => simpa [run, reported, Source.after] using h
  | cons command commands ih =>
      have hread : Action.Keeps (Recounts bytes events #[]) (Recounts bytes events #[]) Source.read :=
        .of_forall fun s journal h => h.read
      have hstart : Recounts bytes events #[] s #[] := recounts_start h
      obtain ⟨more, hmore, hperform⟩ := (perform_keeps hread backup_recounts command).forall hstart
      rw [List.nil_append] at hmore
      have hrest := ih hperform
      rw [List.append_assoc, ← hmore] at hrest
      exact hrest

/-- What a source accounts for is warned of exactly once and in order, with the number of the character that stands for
the byte; and when everything is decoded, there are as many warnings as the text is longer than the bytes, by two
each. -/
theorem Accounts.exact (h : Accounts bytes events s) :
    Journal.warnings events = Journal.due 0 ((Utf8.pieces bytes).take s.retained) ∧
      s.history.chars.toList = (Utf8.decode bytes).take s.retained := by
  obtain ⟨-, taken, hpieces, hchars, hwarnings⟩ := h
  have hlength : s.retained = taken.length := by
    rw [retained, History.retained, ← Array.length_toList, hchars, List.length_map]
  constructor
  · rw [hwarnings, hpieces, hlength, List.take_left]
  · rw [hchars, Utf8.decode_eq_shown, hpieces, hlength, List.map_append,
      List.take_left' (List.length_map _)]

end Source

end Backtrack
