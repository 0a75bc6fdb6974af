import Backtrack.Proofs.Source.Pulls

/-! Buffering and progress. A source has its decoder decode one character at most for each read, and otherwise leaves
it alone; so the bounds on the pulls for one character hold wherever reading and taking back lead. -/

namespace Backtrack

namespace Source

variable {s after : Source} {journal : Journal}

/-- A read leaves the decoder alone, if the symbol is retained or nothing is left; else it is the decoder that decodes
the next character. -/
theorem read_decoder (s : Source) (journal : Journal) :
    ((s.cursor < s.retained ∨ s.decoder.isFinished = true) ∧ (s.read journal).state.decoder = s.decoder) ∨
      ((s.read journal).state.decoder = (s.decoder.next s.retained journal).state ∧
        ∀ symbol, (s.read journal).result = .ok symbol →
          ∃ found, (s.decoder.next s.retained journal).result = .ok found) := by
  have hread : (s.read journal).state.decoder = (s.refill journal).state.decoder ∧
      ∀ symbol, (s.read journal).result = .ok symbol → (s.refill journal).result = .ok () := by
    rw [read_eq, Action.bind]
    generalize s.refill journal = o
    obtain ⟨result, ⟨history, decoder⟩, between⟩ := o
    cases result with
    | ok => exact ⟨rfl, fun _ _ => rfl⟩
    | error stop => exact ⟨rfl, fun symbol h => by cases h⟩
  obtain ⟨hdecoder, hresult⟩ := hread
  rw [hdecoder]
  obtain ⟨history, decoder⟩ := s
  by_cases h : (history.isExhausted && !decoder.isFinished) = true
  · right
    rw [refill, if_pos h] at hresult ⊢
    change _ = (decoder.next history.retained journal).state ∧ ∀ symbol, _ →
      ∃ found, (decoder.next history.retained journal).result = .ok found
    generalize decoder.next history.retained journal = o at hresult ⊢
    obtain ⟨result, mid, between⟩ := o
    cases result with
    | ok found => cases found <;> exact ⟨rfl, fun _ _ => ⟨_, rfl⟩⟩
    | error stop =>
        refine ⟨rfl, fun symbol hsymbol => ?_⟩
        cases hresult symbol hsymbol
  · left
    have hrefill : refill ⟨history, decoder⟩ journal = ⟨.ok (), ⟨history, decoder⟩, journal⟩ := if_neg h
    rw [hrefill]
    refine ⟨?_, rfl⟩
    simp only [Bool.and_eq_true, History.isExhausted, decide_eq_true_eq, not_and_or, not_le, Bool.not_eq_true',
      Bool.not_eq_false] at h
    exact h

theorem Leads.bounded (h : s.Leads after) (hbounded : s.decoder.Bounded) :
    after.decoder.Bounded ∧ after.decoder.chunkSize = s.decoder.chunkSize := by
  induction h with
  | refl => exact ⟨hbounded, rfl⟩
  | @read mid h journal ih =>
      rcases mid.read_decoder journal with ⟨-, hsame⟩ | ⟨hnext, -⟩
      · rwa [hsame]
      · obtain ⟨hafter, hchunk⟩ := Decoder.next_bounded ih.1 mid.retained journal
        rw [hnext]
        exact ⟨hafter, hchunk.trans ih.2⟩
  | takeBack h count ih => exact ih

/-- Once the end of the input has been seen, the reader is never called again. -/
theorem Leads.drained (h : s.Leads after) (hdrained : s.decoder.drained = true) :
    after.decoder.reader = s.decoder.reader ∧ after.decoder.drained = true := by
  induction h with
  | refl => exact ⟨rfl, hdrained⟩
  | @read mid h journal ih =>
      rcases mid.read_decoder journal with ⟨-, hsame⟩ | ⟨hnext, -⟩
      · rwa [hsame]
      · obtain ⟨hreader, hafter⟩ := Decoder.next_of_drained ih.2 mid.retained journal
        rw [hnext]
        exact ⟨hreader.trans ih.1, hafter⟩
  | takeBack h count ih => exact ih

/-- A read that delivers a symbol has made its pulls: none if the symbol was retained, else those up to where the front
settles the character or the end of the input is known. -/
theorem read_pulls {symbol : Symbol} (h : (s.read journal).result = .ok symbol) :
    ∃ pulls mid between count, s.decoder.Proceeds s.retained journal pulls mid between ∧
      (s.cursor < s.retained ∧ pulls = [] ∨ mid.Halts s.retained) ∧
      (s.read journal).state.decoder = mid.skip count := by
  rcases s.read_decoder journal with ⟨hretained, hsame⟩ | ⟨hnext, hfound⟩
  · refine ⟨[], s.decoder, journal, 0, .stay _ _, ?_, hsame⟩
    refine hretained.imp (fun hlt => ⟨hlt, rfl⟩) fun hfinished => .inr ?_
    exact (Bool.and_eq_true_iff.mp hfinished).1
  · obtain ⟨found, hresult⟩ := hfound symbol h
    rw [hnext]
    generalize hdecodes : s.decoder.next s.retained journal = o at hresult
    obtain ⟨result, decoder, journal'⟩ := o
    cases hresult
    obtain ⟨pulls, mid, between, count, hproceeds, hhalts, hafter⟩ := Decoder.exists_proceeds hdecodes
    exact ⟨pulls, mid, between, count, hproceeds, .inr hhalts, hafter⟩

/-- A read retains one character at most. -/
theorem read_retained_le (s : Source) (journal : Journal) : (s.read journal).state.retained ≤ s.retained + 1 := by
  have hrefill : (s.refill journal).state.retained ≤ s.retained + 1 := by
    obtain ⟨history, decoder⟩ := s
    unfold refill
    dsimp only
    split_ifs
    · generalize decoder.next history.retained journal = o
      obtain ⟨result, after, between⟩ := o
      match result with
      | .ok (some c) => exact (Array.size_push c).le
      | .ok none => exact Nat.le_succ _
      | .error stop => exact Nat.le_succ _
    · exact Nat.le_succ _
  rw [read_eq, Action.bind]
  generalize s.refill journal = o at hrefill ⊢
  obtain ⟨result, ⟨history, decoder⟩, between⟩ := o
  cases result with
  | ok =>
      dsimp only [onHistory, History.next]
      split_ifs <;> exact hrefill
  | error stop => exact hrefill

/-- Buffering is bounded, and reading goes on. Wherever `read` and `takeBack` lead, and at every stage of the pulls for
the next character, `Decoder.Moderate` holds: the buffer has at most three bytes beside a chunk, the next pull is made
with at most three undecoded bytes left, at most four pulls have brought bytes and at most one has brought none. A
`read` that delivers a symbol retains at most one character and makes these pulls and no others. Once the decoder is
drained, its reader is never called again. And whatever a reader answers, unless it is interrupted for ever, finitely
many of its answers settle the next character. -/
theorem buffering_bounded :
    (∀ (reader : Reader) (window : Option Nat) (chunkSize : Nat) (s : Source),
      (ofReader reader window chunkSize).Leads s → ∀ journal : Journal,
        (∀ pulls mid between, s.decoder.Proceeds s.retained journal pulls mid between →
          Decoder.Moderate s.retained (max chunkSize 1) pulls mid) ∧
        (∀ symbol, (s.read journal).result = .ok symbol → (s.read journal).state.retained ≤ s.retained + 1 ∧
          ∃ pulls mid between count, s.decoder.Proceeds s.retained journal pulls mid between ∧
            (s.cursor < s.retained ∧ pulls = [] ∨ mid.Halts s.retained) ∧
            (s.read journal).state.decoder = mid.skip count) ∧
        (s.decoder.drained = true → ∀ after, s.Leads after →
          after.decoder.Detached ∧ after.decoder.reader = s.decoder.reader)) ∧
    ∀ script : Nat → Delivery, (∀ k, ∃ m, k ≤ m ∧ script m ≠ .interrupted) →
      ∀ (d : Decoder) (index : Nat) (journal : Journal),
        ∃ (count : Nat) (result : Except Stop (Option Char)) (mid : Decoder) (left : List Delivery) (after : Journal),
          ∀ rest ending, (d.onto ((List.range count).map script ++ rest) ending).next index journal =
            ⟨result, mid.onto (left ++ rest) ending, after⟩ := by
  refine ⟨fun reader window chunkSize s hleads journal => ⟨?_, ?_, ?_⟩, Decoder.next_of_script⟩
  · intro pulls mid between hproceeds
    obtain ⟨hbounded, hchunk⟩ := hleads.bounded (Decoder.bounded_ofReader reader chunkSize)
    have hmoderate := hproceeds.moderate hbounded
    rwa [hchunk] at hmoderate
  · intro symbol hresult
    exact ⟨s.read_retained_le journal, read_pulls hresult⟩
  · intro hdrained after hafter
    obtain ⟨hreader, hstill⟩ := hafter.drained hdrained
    exact ⟨Decoder.detached_of_drained hstill, hreader⟩

theorem buffering_bounded_split :
    let deliveries : List Delivery := [.bytes [0xF0], .interrupted, .bytes [0x9F, 0x98], .bytes [0x80], .bytes []]
    let s := ofReader ⟨deliveries, .failing "gone"⟩ none 1
    (s.read #[]).result = .ok (.char '😀') ∧
      (∃ pulls mid between, s.decoder.Proceeds 0 #[] pulls mid between ∧ mid.Halts 0 ∧
        pulls.countP (· ≠ []) ≤ 4 ∧ mid.buffer.size ≤ 4) ∧
      ∃ (count : Nat) (result : Except Stop (Option Char)) (mid : Decoder) (left : List Delivery) (after : Journal),
        ∀ rest ending, (s.decoder.onto ((List.range count).map
          (fun k => if k % 2 = 0 then .interrupted else .bytes [0xF0]) ++ rest) ending).next 0 #[] =
            ⟨result, mid.onto (left ++ rest) ending, after⟩ := by
  intro deliveries s
  have hread : (s.read #[]).result = .ok (.char '😀') := by decide +kernel
  obtain ⟨hmoderate, hpulls, -⟩ := buffering_bounded.1 ⟨deliveries, .failing "gone"⟩ none 1 s .refl #[]
  obtain ⟨-, pulls, mid, between, count, hproceeds, hhalts, -⟩ := hpulls _ hread
  have hbounds := hmoderate pulls mid between hproceeds
  refine ⟨hread, ⟨pulls, mid, between, hproceeds, ?_, hbounds.filling, hbounds.size⟩, ?_⟩
  · exact hhalts.resolve_left fun h => Nat.not_lt_zero _ h.1
  · refine buffering_bounded.2 _ (fun k => ⟨2 * k + 1, by omega, ?_⟩) s.decoder 0 #[]
    rw [if_neg (by omega)]
    exact Delivery.noConfusion

end Source

end Backtrack
