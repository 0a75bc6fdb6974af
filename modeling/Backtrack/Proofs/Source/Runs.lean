import Backtrack.Source.Command
import Backtrack.Proofs.Action
import Backtrack.Proofs.Source.Reading

/-! Runs on a source. Whatever has been read and taken back, and whatever failures have surfaced, the next
read delivers the symbol of the text whose number the cursor says, or a failure of the reader that has not
surfaced yet. The text is the decoding of the bytes that the reader brings, and the pieces in which they
arrive leave no trace in it. -/

namespace Backtrack.Source

/-- The source that commands leave behind. -/
def after (s : Source) (commands : List Command) : Source :=
  commands.foldl (fun s command => (perform command s #[]).state) s

/-! ### What commands keep -/

section

variable {I : Source → Journal → Prop} (hread : Action.Keeps I I read)

include hread

/-- Reading a text is reading symbols. -/
theorem readText_keeps (count : Nat) : Action.Keeps I I (readText count) := by
  suffices h : ∀ seen, Action.Keeps I I (readText.go seen count) from h []
  induction count with
  | zero => exact fun seen => Action.keeps_pure _
  | succ count ih =>
      intro seen
      apply hread.bind
      intro symbol
      cases symbol with
      | char c => exact ih (c :: seen)
      | eof => exact Action.keeps_pure _

/-- Whatever reads and backups keep, commands keep. -/
theorem perform_keeps (hbackup : ∀ count, Action.Keeps I I (backup count)) (command : Command) :
    Action.Keeps I I (perform command) := by
  cases command with
  | read => exact hread.map _
  | text count => exact (readText_keeps hread count).map _
  | backup count => exact (hbackup count).bind fun _ => Action.keeps_pure _
  | range start stop =>
      refine .of_forall fun s journal h => ?_
      dsimp only [perform]
      cases s.range start stop <;> exact h

end

/-- The source comes of another one. Its text is the same, and the failures that its reader has still to
bring are the last ones of those that there were. -/
structure ComesOf (origin s : Source) : Prop extends Same origin s where
  failures : s.decoder.failures <:+ origin.decoder.failures

theorem Reads.failures_suffix {s : Source} {o : Outcome Source Symbol}
    (hending : s.decoder.reader.ending = .finished) (h : s.Reads o) :
    o.state.decoder.failures <:+ s.decoder.failures := by
  obtain ⟨result, after, journal⟩ := o
  match result with
  | .ok symbol =>
      exact h.2.1 ▸ List.suffix_rfl
  | .error (.fault f) =>
      obtain ⟨-, -, reason, -, hnext | hlast⟩ := h
      · rw [hnext]
        exact List.suffix_cons _ _
      · rw [hending] at hlast
        cases hlast
  | .error (.breach b) =>
      exact h.2.2.2.1 ▸ List.suffix_rfl

theorem TakesBack.decoder_eq {s : Source} {count : Nat} {journal : Journal} {o : Outcome Source Unit}
    (h : s.TakesBack count journal o) : o.state.decoder = s.decoder := by
  cases h <;> rfl

theorem backup_comesOf (origin : Source) (count : Nat) :
    Action.Keeps (fun s _ => ComesOf origin s) (fun s _ => ComesOf origin s) (backup count) := by
  refine .of_forall fun s journal h => ?_
  have hbackup := backup_takesBack s count journal
  refine ⟨h.toSame.trans (hbackup.evolves.same h.valid), ?_⟩
  rw [hbackup.decoder_eq]
  exact h.failures

section

variable {origin : Source} (hending : origin.decoder.reader.ending = .finished)

include hending

theorem read_comesOf :
    Action.Keeps (fun s _ => ComesOf origin s) (fun s _ => ComesOf origin s) read := by
  refine .of_forall fun s journal h => ?_
  have hreads := read_reads h.valid journal
  exact ⟨h.toSame.trans (hreads.same h.valid),
    (hreads.failures_suffix (h.ending.trans hending)).trans h.failures⟩

theorem after_comesOf (hvalid : origin.Valid) (commands : List Command) :
    ComesOf origin (origin.after commands) := by
  suffices h : ∀ s, ComesOf origin s → ComesOf origin (s.after commands) from
    h origin ⟨.refl hvalid, List.suffix_rfl⟩
  induction commands with
  | nil => exact fun s h => h
  | cons command commands ih =>
      intro s h
      exact ih _ ((perform_keeps (read_comesOf hending) (backup_comesOf origin) command).forall h)

end

/-! ### Reads after a run -/

/-- A read after any commands on a reader, whatever the pieces and the failures with which its bytes
arrive. It delivers the symbol of the decoded text whose number the cursor says; or it stops at the next
failure of the reader and leaves the cursor, what is retained and the bytes not decoded yet as they were,
those at hand in their place and the pulled ones behind them; or the cursor is at its limit. -/
theorem read_after_commands (deliveries : List Delivery) (window : Option Nat) (chunkSize : Nat)
    (commands : List Command) (journal : Journal) :
    let s := (ofReader ⟨deliveries, .finished⟩ window chunkSize).after commands
    match s.read journal with
    | ⟨.ok symbol, after, _⟩ =>
        symbol = .ofText (Utf8.decode (Reader.upcoming deliveries)) s.cursor ∧
          after.cursor = s.cursor + 1
    | ⟨.error (.fault f), after, _⟩ =>
        (∃ reason ∈ Reader.failures deliveries, f = .io reason ∧
          s.decoder.failures = reason :: after.decoder.failures) ∧
        after.history = s.history ∧ after.decoder.remaining = s.decoder.remaining ∧
        ∃ pulled, after.decoder.undecoded = s.decoder.undecoded ++ pulled ∧
          s.decoder.upcoming = pulled ++ after.decoder.upcoming
    | ⟨.error (.breach b), after, _⟩ =>
        b = .counterOverflow ∧ counterLimit ≤ s.cursor ∧ after.cursor = s.cursor := by
  intro s
  have hvalid : (ofReader ⟨deliveries, .finished⟩ window chunkSize).Valid := by
    refine valid_ofReader ?_ window chunkSize
    exact trivial
  have hcomes : ComesOf (ofReader ⟨deliveries, .finished⟩ window chunkSize) s :=
    after_comesOf rfl hvalid commands
  have htext : s.text = Utf8.decode (Reader.upcoming deliveries) :=
    hcomes.text.trans (text_ofReader _ window chunkSize)
  have hreads := read_reads hcomes.valid journal
  generalize s.read journal = o at hreads ⊢
  obtain ⟨result, after, journal'⟩ := o
  match result with
  | .ok symbol =>
      obtain ⟨-, -, hsymbol, hcursor, -⟩ := hreads
      rw [htext] at hsymbol
      exact ⟨hsymbol, hcursor⟩
  | .error (.fault f) =>
      obtain ⟨hhistory, hpulled, reason, hreason, hnext | hlast⟩ := hreads
      · have hmem : reason ∈ s.decoder.failures := hnext ▸ List.mem_cons_self
        exact ⟨⟨reason, hcomes.failures.subset hmem, hreason, hnext⟩, hhistory, hpulled.remaining_eq,
          hpulled.bytes⟩
      · have hending : s.decoder.reader.ending = .finished := hcomes.ending
        rw [hending] at hlast
        cases hlast
  | .error (.breach b) =>
      obtain ⟨hb, hlimit, -, -, hcursor⟩ := hreads
      exact ⟨hb, hlimit, hcursor⟩

/-! ### Reading to the end -/

theorem readText_go {count : Nat} (seen : List Char) {s : Source} (hvalid : s.Valid)
    (hreliable : s.Reliable) (hcount : s.cursor + count ≤ counterLimit) (journal : Journal) :
    (readText.go seen count s journal).result =
      .ok (String.ofList (seen.reverse ++ (s.text.drop s.cursor).take count)) := by
  induction count generalizing seen s journal with
  | zero =>
      rw [List.take_zero, List.append_nil]
      rfl
  | succ count ih =>
      rcases read_of_reliable hvalid hreliable journal with
        ⟨after, journal', hread, hsame, hafter, hcursor⟩ | ⟨-, hlimit⟩
      · rw [readText.go, Action.bind_apply, Action.bind, hread]
        cases hget : s.text[s.cursor]? with
        | none =>
            have hdrop : s.text.drop s.cursor = [] :=
              List.drop_eq_nil_of_le (List.getElem?_eq_none_iff.mp hget)
            rw [Symbol.ofText, hget, hdrop, List.take_nil, List.append_nil]
            rfl
        | some c =>
            obtain ⟨hlt, hc⟩ := List.getElem?_eq_some_iff.mp hget
            have hrest := ih (c :: seen) hsame.valid hafter (by omega) journal'
            rw [Symbol.ofText, hget, List.drop_eq_getElem_cons hlt, hc, List.take_succ_cons]
            rw [hsame.text, hcursor, List.reverse_cons, List.append_assoc] at hrest
            exact hrest
      · omega

/-- Reading from a reader decodes its bytes, and decoding them swallows nothing that is well-formed: bytes
whose first one cannot continue a sequence are decoded as if they stood alone, so that text comes out
whole on both sides of bytes that are not text. -/
theorem decoding_keeps_text :
    (∀ (deliveries : List Delivery) (window : Option Nat) (chunkSize count : Nat) (journal : Journal),
      Reader.failures deliveries = [] → count ≤ counterLimit →
        (readText count (ofReader ⟨deliveries, .finished⟩ window chunkSize) journal).result =
          .ok (String.ofList ((Utf8.decode (Reader.upcoming deliveries)).take count))) ∧
    (∀ left right : List UInt8, (∀ b ∈ right.head?, Utf8.isContinuation b = false) →
      Utf8.decode (left ++ right) = Utf8.decode left ++ Utf8.decode right) ∧
    (∀ (before after : List Char) (bytes : List UInt8),
      Utf8.decode (Utf8.encode before ++ bytes ++ Utf8.encode after) =
        before ++ Utf8.decode bytes ++ after) ∧
    ∀ text : List Char, Utf8.decode (Utf8.encode text) = text := by
  refine ⟨?_, ?_, ?_, Utf8.decode_encode⟩
  · intro deliveries window chunkSize count journal hfailures hcount
    have hvalid : (ofReader ⟨deliveries, .finished⟩ window chunkSize).Valid := by
      refine valid_ofReader ?_ window chunkSize
      exact trivial
    have hroom : (ofReader ⟨deliveries, .finished⟩ window chunkSize).cursor + count ≤ counterLimit := by
      simpa [cursor, ofReader, History.ofChars] using hcount
    have hread := readText_go [] hvalid ⟨rfl, hfailures⟩ hroom journal
    rw [text_ofReader] at hread
    exact hread
  · intro left right hright
    exact Utf8.decode_append hright
  · intro before after bytes
    calc
      Utf8.decode (Utf8.encode before ++ bytes ++ Utf8.encode after)
          = Utf8.decode (Utf8.encode before ++ bytes) ++ Utf8.decode (Utf8.encode after) :=
        Utf8.decode_append (Utf8.isContinuation_head_encode after)
      _ = before ++ Utf8.decode bytes ++ after := by rw [Utf8.decode_encode_append, Utf8.decode_encode]

end Backtrack.Source
