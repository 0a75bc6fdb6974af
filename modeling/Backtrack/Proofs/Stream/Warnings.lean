import Backtrack.Proofs.Source.Warnings
import Backtrack.Proofs.Stream.Course

/-! Warnings about bytes, whatever is done with a stream. Looking ahead, going back and reading again make no difference
to what has been warned of, and neither do failures of the reader: what has been decoded tells it alone. -/

namespace Backtrack.Stream

variable {α : Type} {bytes : List UInt8} {before : List Event} {s created after : Stream}
  {start journal journal' : Journal}

theorem recounts_of_stride (h : s.source.Recounts bytes before start journal)
    (hstride : Stride s journal after journal') : after.source.Recounts bytes before start journal' := by
  cases hstride with
  | read => exact h.read
  | takeBack count => exact h.takeBack count
  | place p => exact h
  | mark hpush => exact h.push rfl
  | close hopen => exact h
  | @remark e he =>
      have hcalm : e.isDecodingWarning = false := by cases e <;> first | rfl | cases he
      exact h.push hcalm

theorem recounts_of_course (h : s.source.Recounts bytes before start journal)
    (hcourse : Course s journal after journal') : after.source.Recounts bytes before start journal' := by
  induction hcourse with
  | refl => exact h
  | stride _ hstride ih => exact recounts_of_stride ih hstride

/-- Malformed bytes are warned of exactly once. Let commands be carried out on a source over a reader, and any program
on a stream over that source. The warnings are those `due` for the first `retained` pieces of the bytes: one for each
`stray` byte, from left to right, with the number of the U+FFFD that stands for it; and where a byte is `stray` no
character begins. What is retained is read again without a warning. When everything has been decoded, encoding the text
takes two bytes more for every warning, so there is none if and only if the bytes are well-formed, and if and only if
encoding gives them back. -/
theorem malformed_reported_once (deliveries : List Delivery) (ending : Ending) (hfixed : ending.IsFixed)
    (window : Option Nat) (chunkSize : Nat) (commands : List Source.Command)
    (hsource : created.source = (Source.ofReader ⟨deliveries, ending⟩ window chunkSize).after commands)
    (hmarks : created.marks.Valid) {x : Action Stream α} (hx : Uses .free x created start) :
    let bytes := Reader.upcoming deliveries
    let pieces := Utf8.pieces bytes
    let steps := Source.run (.ofReader ⟨deliveries, ending⟩ window chunkSize) commands
    let source := (x created start).state.source
    let warnings :=
      Journal.warnings (Source.reported steps ++ Journal.since start (x created start).journal)
    (pieces.flatMap Utf8.Piece.bytes = bytes ∧ pieces.map Utf8.Piece.shown = Utf8.decode bytes ∧
        ∀ front lead behind, pieces = front ++ .stray lead :: behind →
          ∀ n, Utf8.char? ((lead :: behind.flatMap Utf8.Piece.bytes).take n) = none) ∧
      source.history.chars.toList = (Utf8.decode bytes).take source.retained ∧
      warnings = Journal.due 0 (pieces.take source.retained) ∧ (warnings.map Prod.fst).Pairwise (· < ·) ∧
      (∀ index first, (index, first) ∈ warnings ↔
        index < source.retained ∧ ∃ lead, first = some lead ∧ pieces[index]? = some (.stray lead)) ∧
      (source.cursor < source.retained → ∀ journal, (source.read journal).journal = journal) ∧
      (source.history.chars.toList = Utf8.decode bytes →
        (Utf8.encode (Utf8.decode bytes)).length = bytes.length + 2 * warnings.length ∧
          List.TFAE [warnings = [], (Utf8.decodeStrict? bytes).isSome = true,
            Utf8.encode (Utf8.decode bytes) = bytes]) := by
  intro bytes pieces steps source warnings
  have hcreated : Source.Accounts bytes (Source.reported steps) created.source := by
    rw [hsource]
    exact (Source.accounts_ofReader hfixed window chunkSize).after commands
  obtain ⟨events, hevents, haccounts⟩ := recounts_of_course (Source.recounts_start hcreated) (hx.course hmarks)
  have hwarnings : warnings = Journal.due 0 (pieces.take source.retained) := by
    show Journal.warnings _ = _
    rw [Journal.since_eq_of_append hevents]
    exact haccounts.exact.1
  refine ⟨⟨Utf8.flatMap_pieces bytes, (Utf8.decode_eq_shown bytes).symm, fun front lead behind h n => ?_⟩,
    haccounts.exact.2, hwarnings, ?_, fun index first => ?_, Source.read_journal_of_lt, fun hwhole => ?_⟩
  · exact Utf8.char?_of_pieces_eq_append h n
  · rw [hwarnings, Journal.map_fst_due]
    exact Utf8.pairwise_givenUp _
  · rw [hwarnings, Journal.mem_due]
    by_cases hlt : index < source.retained
    · simp [List.getElem?_take_of_lt hlt, hlt]
    · rw [List.getElem?_take_eq_none (Nat.not_lt.mp hlt)]
      simp [hlt]
  · have hretained : source.retained = pieces.length := by
      rw [Source.retained, History.retained, ← Array.length_toList, hwhole, Utf8.decode_eq_shown, List.length_map]
    rw [hretained, List.take_length] at hwarnings
    rw [hwarnings, Journal.length_due, Journal.due_eq_nil]
    exact ⟨Utf8.length_encode_decode bytes, Utf8.wellformed_tfae bytes⟩

/-- A U+FFFD of the input whose sequence is cut by a failure, a byte that begins nothing, and a sequence that the end of
the input cuts off: looking ahead fails once and is tried again, then two steps are made and taken back. Three bytes
have been given up, and there are three warnings. -/
theorem malformed_reported_once_retried :
    let deliveries : List Delivery :=
      [.bytes [0x61, 0xEF, 0xBF], .failure "offline", .bytes [0xBD, 0xFF, 0xE2, 0x82]]
    let origin := Source.ofReader ⟨deliveries, .finished⟩ none 2
    let commands : List Source.Command := [.read, .backup 1]
    let created := ofSource (origin.after commands) "text" false
    let x := (lookahead 6).capture >>= fun failed => lookahead 6 >>= fun _ => advance >>= fun _ => advance >>= fun _ =>
      seek 0 >>= fun _ => pure failed
    let o := x created #[]
    let warnings := Journal.warnings (Source.reported (Source.run origin commands) ++ Journal.since #[] o.journal)
    o.result = .ok (.error (.fault (.io "offline"))) ∧
      warnings = [(2, some 0xFF), (3, some 0xE2), (4, some 0x82)] ∧
      (Utf8.encode (Utf8.decode (Reader.upcoming deliveries))).length =
        (Reader.upcoming deliveries).length + 2 * 3 := by
  intro deliveries origin commands created x o warnings
  have hx : Uses .free x created #[] :=
    ((Uses.lookahead trivial).capture trivial).bind fun failed _ =>
      Uses.bind (.lookahead trivial) fun _ _ => Uses.advance.bind fun _ _ => Uses.advance.bind fun _ _ =>
        (Uses.seek 0).bind fun _ _ => .pure failed
  have hsource : created.source = origin.after commands := rfl
  have hwarnings : warnings = [(2, some 0xFF), (3, some 0xE2), (4, some 0x82)] := by decide +kernel
  obtain ⟨-, -, -, -, -, -, hwhole⟩ := malformed_reported_once deliveries .finished trivial none 2 commands
    hsource (MarkStack.valid_withCapacity 0) hx
  have hlength := (hwhole (by decide +kernel)).1
  rw [show Journal.warnings _ = _ from hwarnings] at hlength
  exact ⟨by decide +kernel, hwarnings, hlength⟩

end Backtrack.Stream
