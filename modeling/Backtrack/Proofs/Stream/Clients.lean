import Backtrack.Search
import Backtrack.Proofs.Stream.Operations

/-! Clients of a stream. A client is any program that touches a stream through its operations alone. It may
look at all that the stream shows, decide on its next operation by what it has seen, keep marks and use
them in any order, and go on after whatever has stopped an operation, unless a counter is full. Attempts,
searches and inspections are clients, and whatever a client does is a run. -/

namespace Backtrack.Stream

variable {overrides : Prop} {α β : Type}

/-- A stream as it is created, with room for some marks, over a text or over a reader whose bytes are decoded
to that text. -/
structure IsFresh (text : List Char) (s : Stream) : Prop where
  source : (∃ window, s.source = .ofText text window) ∨
    ∃ reader window chunkSize, s.source = .ofReader reader window chunkSize ∧
      text = Utf8.decode (Reader.upcoming reader.deliveries)
  position : s.position = .start
  marks : ∃ capacity, s.marks = .withCapacity capacity

namespace IsFresh

variable {text : List Char} {s : Stream}

theorem cursor (h : s.IsFresh text) : s.source.cursor = 0 := by
  rcases h.source with ⟨window, hsource⟩ | ⟨reader, window, chunkSize, hsource, -⟩
  · rw [hsource]
    rfl
  · rw [hsource]
    rfl

theorem text_eq (h : s.IsFresh text) : s.source.text = text := by
  rcases h.source with ⟨window, hsource⟩ | ⟨reader, window, chunkSize, hsource, rfl⟩
  · rw [hsource]
    exact Source.text_ofText text window
  · rw [hsource]
    exact Source.text_ofReader reader window chunkSize

theorem valid_source (h : s.IsFresh text) (hfixed : s.source.decoder.reader.ending.IsFixed) :
    s.source.Valid := by
  rcases h.source with ⟨window, hsource⟩ | ⟨reader, window, chunkSize, hsource, -⟩
  · rw [hsource]
    exact Source.valid_ofText text window
  · rw [hsource] at hfixed ⊢
    exact Source.valid_ofReader hfixed window chunkSize

/-- The text of a reader that does not fail is settled. -/
theorem valid_of_reliable (h : s.IsFresh text) (hreliable : s.source.Reliable) : s.source.Valid := by
  refine h.valid_source ?_
  rw [hreliable.ending]
  trivial

theorem index (h : s.IsFresh text) : s.index = 0 :=
  congrArg Position.index h.position

theorem ahead (h : s.IsFresh text) : s.index ≤ s.source.cursor := by
  rw [h.index]
  exact Nat.zero_le _

theorem valid_marks (h : s.IsFresh text) : s.marks.Valid := by
  obtain ⟨capacity, hmarks⟩ := h.marks
  rw [hmarks]
  exact MarkStack.valid_withCapacity capacity

theorem entries (h : s.IsFresh text) : s.marks.entries = [] := by
  obtain ⟨capacity, hmarks⟩ := h.marks
  rw [hmarks]
  exact MarkStack.entries_withCapacity capacity

end IsFresh

/-- The programs that use a stream through its operations. The line and the column are set only where
`overrides` are allowed. -/
inductive Client (overrides : Prop) : {α : Type} → Action Stream α → Prop
  | advance : Client overrides advance
  | lookahead (i : Nat) : Client overrides (lookahead i)
  | seek (target : Nat) : Client overrides (seek target)
  | setLine (h : overrides) (line : Nat) : Client overrides (setLine line)
  | setColumn (h : overrides) (column : Nat) : Client overrides (setColumn column)
  | mark : Client overrides mark
  | release (m : Marker) : Client overrides (release m)
  | rewindTo (m : Marker) : Client overrides (rewindTo m)
  | query {α : Type} (f : Stream → α) : Client overrides (query f)
  | report {e : Event} (h : e.phase = .cli) : Client overrides (Action.emit e)
  | stop {α : Type} (reason : Stop) : Client overrides (Action.stop reason : Action Stream α)
  | pure {α : Type} (a : α) : Client overrides (Pure.pure a : Action Stream α)
  | bind {α β : Type} {x : Action Stream α} {f : α → Action Stream β} (hx : Client overrides x)
      (hf : ∀ a, Client overrides (f a)) : Client overrides (x >>= f)
  | recover {α : Type} {x : Action Stream α} (hx : Client overrides x) : Client overrides x.recover

namespace Client

/-! ### What clients do -/

theorem keeps_reaches {s : Stream} (hvalid : s.marks.Valid) (journal : Journal) {x : Action Stream α}
    (hx : Client overrides x) :
    Action.Keeps (Reaches overrides s journal) (fun _ _ => True) x := by
  have hop : ∀ {γ : Type} {y : Action Stream γ}, (∀ mid journal', mid.marks.Valid →
      ¬(y mid journal').IsFull →
        Reaches overrides mid journal' (y mid journal').state (y mid journal').journal) →
      Action.Keeps (Reaches overrides s journal) (fun _ _ => True) y := by
    intro γ y h mid journal' hreaches
    refine ⟨fun _ => trivial, fun hfull => ?_⟩
    exact hreaches.trans (h mid journal' (hreaches.valid hvalid) hfull)
  induction hx with
  | advance => exact hop fun mid journal' _ hfull => (advance_goes mid journal' hfull).reaches
  | lookahead i => exact hop fun mid journal' _ hfull => lookahead_reaches i mid journal' hfull
  | seek target => exact hop fun mid journal' _ hfull => seek_reaches target mid journal' hfull
  | setLine h line => exact hop fun mid journal' _ _ => (Move.setLine h line).reaches (List.append_nil _).symm
  | setColumn h column =>
      exact hop fun mid journal' _ _ => (Move.setColumn h column).reaches (List.append_nil _).symm
  | mark => exact hop fun mid journal' hmid _ => mark_reaches hmid journal'
  | release m => exact hop fun mid journal' _ _ => release_reaches m mid journal'
  | rewindTo m => exact hop fun mid journal' hmid hfull => (rewindTo_rewinds hmid m journal' hfull).reaches
  | query f => exact hop fun mid journal' _ _ => .refl mid journal'
  | @report e h =>
      apply hop
      intro mid journal' _ _
      have hstay : Move overrides mid [e] mid := by
        apply Move.stay
        intro e' he'
        obtain rfl : e = e' := by simpa using he'
        cases e <;> first | rfl | cases h
      exact hstay.reaches Array.toList_push
  | stop reason => exact Action.keeps_stop (fun _ _ _ => trivial) reason
  | pure a => exact Action.keeps_pure a
  | bind hx hf ihx ihf => exact ihx.bind ihf
  | recover hx ih => exact ih.recover

/-- Whatever a client does is a run, unless a counter is full. -/
theorem reaches {x : Action Stream α} (hx : Client overrides x) {s : Stream} (hvalid : s.marks.Valid)
    {journal : Journal} (hfull : ¬(x s journal).IsFull) :
    Reaches overrides s journal (x s journal).state (x s journal).journal :=
  (hx.keeps_reaches hvalid journal s journal (.refl s journal)).2 hfull

/-! ### Programs that are clients -/

theorem map {x : Action Stream α} (hx : Client overrides x) (f : α → β) : Client overrides (f <$> x) :=
  hx.bind fun a => .pure (f a)

theorem attempt {x : Action Stream α} (hx : Client overrides x) : Client overrides x.attempt := by
  rw [Action.attempt_eq_recover]
  apply hx.recover.bind
  intro result
  match result with
  | .ok a => exact .pure _
  | .error (.fault f) => exact .pure _
  | .error (.breach b) => exact .stop _

theorem times {x : Action Stream Unit} (hx : Client overrides x) (n : Nat) :
    Client overrides (x.times n) := by
  induction n with
  | zero => exact .pure ()
  | succ n ih => exact hx.bind fun _ => ih

theorem rewind : Client overrides rewind :=
  Client.bind (.query _) .rewindTo

theorem substring (start stop : Nat) : Client overrides (substring start stop) := by
  have hsubstring : Stream.substring start stop = Stream.query (·.source.range start stop) >>= fun range =>
      fun s journal => ⟨range.mapError Stop.fault, s, journal⟩ := by
    funext s journal
    exact substring_eq start stop s journal
  rw [hsubstring]
  apply Client.bind (.query _)
  intro range
  cases range with
  | ok text => exact .pure text
  | error f => exact .stop _

/-- Attempts nest: what is tried may be any client. -/
theorem speculate {body : Action Stream (Option α)} (hbody : Client overrides body) :
    Client overrides (speculate body) := by
  apply Client.mark.bind
  intro m
  apply hbody.attempt.bind
  intro result
  match result with
  | .ok (some a) => exact (Client.release m).bind fun _ => .pure _
  | .ok none =>
      apply (Client.rewindTo m).attempt.bind
      intro back
      cases back with
      | ok => exact .pure none
      | error f => exact (Client.release m).bind fun _ => .stop _
  | .error f => exact (Client.release m).bind fun _ => .stop _

theorem consume (text : List Char) : Client overrides (consume text) := by
  induction text with
  | nil => exact .pure _
  | cons c text ih =>
      apply (Client.lookahead 1).bind
      intro symbol
      split
      · exact Client.advance.bind fun _ => ih
      · exact .pure none

theorem matchesText (text : List Char) : Client overrides (matchesText text) :=
  (speculate (consume text)).map Option.isSome

theorem lookaheads (i count : Nat) : Client overrides (lookaheads i count) := by
  induction count generalizing i with
  | zero => exact .pure []
  | succ count ih => exact (Client.lookahead i).bind fun _ => (ih (i + 1)).bind fun _ => .pure _

theorem reserve (count : Nat) : Client overrides (reserve count) := by
  unfold Stream.reserve
  split
  · exact .stop _
  · exact .pure ()

theorem inspectRounds (count : Nat) (seen : List SymbolReport) (rounds : Nat) :
    Client overrides (inspectRounds count seen rounds) := by
  induction rounds generalizing seen with
  | zero => exact .pure _
  | succ rounds ih =>
      apply (Client.lookahead 1).bind
      intro symbol
      split
      · exact .pure _
      · apply (reserve count).bind
        intro _
        apply (lookaheads 2 count).bind
        intro ahead
        apply (Client.query _).bind
        intro position
        exact Client.advance.bind fun _ => ih _

theorem inspect (count : Nat) (limit : Option Nat) : Client overrides (inspect count limit) := by
  apply (Client.query _).bind
  intro rounds
  apply (inspectRounds count [] _).bind
  intro reports
  exact (Client.report rfl).bind fun _ => .pure reports

theorem findRounds (word : List Char) (seen : List Occurrence) (rounds : Nat) :
    Client overrides (findRounds word seen rounds) := by
  induction rounds generalizing seen with
  | zero => exact .pure _
  | succ rounds ih =>
      apply (Client.lookahead 1).bind
      intro symbol
      split
      · exact .pure _
      · apply (Client.query _).bind
        intro start
        apply (matchesText word).bind
        intro found
        split
        · apply (Client.query _).bind
          intro stop
          apply (substring _ stop).bind
          intro text
          exact (Client.report rfl).bind fun _ => ih _
        · exact Client.advance.bind fun _ => ih seen

theorem find (word : List Char) : Client overrides (find word) := by
  unfold Stream.find
  split
  · exact .pure []
  · exact (Client.query _).bind fun _ => findRounds word [] _

end Client

end Backtrack.Stream
