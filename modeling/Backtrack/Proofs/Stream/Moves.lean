import Backtrack.Stream
import Backtrack.Proofs.Action
import Backtrack.Proofs.Marks.Entries
import Backtrack.Proofs.Source.Reading

/-! The moves of a stream. Every operation is a sequence of moves, also when it stops, unless a counter is
full; a move says what it reports and how the stream comes out of it. What a sequence of moves keeps, every
use of a stream keeps. -/

namespace Backtrack

/-- The event announces a move that has not been made yet. -/
def Event.isAnnouncement : Event → Bool
  | .rewinding .. | .seekingBack .. => true
  | _ => false

namespace Stream

theorem onSource_eq {α : Type} (x : Action Source α) (s : Stream) (journal : Journal) :
    onSource x s journal =
      ⟨(x s.source journal).result, { s with source := (x s.source journal).state },
        (x s.source journal).journal⟩ :=
  rfl

theorem onMarks_eq {α : Type} (x : Action MarkStack α) (s : Stream) (journal : Journal) :
    onMarks x s journal =
      ⟨(x s.marks journal).result, { s with marks := (x s.marks journal).state },
        (x s.marks journal).journal⟩ :=
  rfl

theorem pass_eq (symbol : Symbol) (s : Stream) (journal : Journal) :
    pass symbol s journal =
      ⟨(s.position.advance symbol).2.elim (.ok ()) fun b => .error (.breach b),
        { s with position := (s.position.advance symbol).1 }, journal⟩ := by
  unfold pass
  generalize s.position.advance symbol = moved
  obtain ⟨position, breach⟩ := moved
  cases breach <;> rfl

theorem substring_eq (start stop : Nat) (s : Stream) (journal : Journal) :
    substring start stop s journal = ⟨(s.source.range start stop).mapError Stop.fault, s, journal⟩ := by
  unfold substring
  cases s.source.range start stop <;> rfl

/-- The stream with the index moved back, and the cursor with it. -/
def retreat (s : Stream) (target : Nat) : Stream :=
  { s with
    source := s.source.takeBack (s.index - target)
    position := { s.position with index := target } }

theorem retreat_index (s : Stream) : s.retreat s.index = s := by
  unfold retreat
  rw [Nat.sub_self, Source.takeBack_zero]
  rfl

theorem retreat_retreat {s : Stream} {target stop : Nat} (hstop : stop ≤ target) (htarget : target ≤ s.index) :
    (s.retreat target).retreat stop = s.retreat stop := by
  have hcount : s.index - target + (target - stop) = s.index - stop := by omega
  show { s with
    source := (s.source.takeBack (s.index - target)).takeBack (target - stop)
    position := { s.position with index := stop } } = s.retreat stop
  rw [Source.takeBack_takeBack, hcount]
  rfl

/-- The stream at a position that a mark has saved, with the mark closed. -/
def returnTo (s : Stream) (m : Marker) (p : Position) : Stream :=
  { s with position := p, marks := s.marks.close m }

/-- One move of a stream and what it reports. The line and the column are set only where `overrides` are
allowed. -/
inductive Move (overrides : Prop) (s : Stream) : List Event → Stream → Prop
  /-- A symbol is consumed. -/
  | pass {symbol : Symbol} {source : Source} {events : List Event} (hevolves : s.source.Evolves source)
      (hcursor : source.cursor = s.source.cursor + 1)
      (hsymbol : s.source.Valid → symbol = .ofText s.source.text s.source.cursor)
      (hreading : ∀ e ∈ events, e.isReading = true) :
      Move overrides s events { s with source := source, position := s.position.next symbol }
  /-- Symbols are read and taken back, or a read fails. -/
  | peek {source : Source} {events : List Event} (hevolves : s.source.Evolves source)
      (hcursor : source.cursor = s.source.cursor) (hreading : ∀ e ∈ events, e.isReading = true) :
      Move overrides s events { s with source := source }
  /-- Symbols are read ahead, and the window refuses to take them back. -/
  | overrun {source : Source} {events : List Event} {requested window : Nat}
      (hevolves : s.source.Evolves source) (hwindow : s.source.history.window = some window)
      (hlt : window < requested) (hreading : ∀ e ∈ events, e.isReading = true) :
      Move overrides s (events ++ [.backupBeyondWindow requested window]) { s with source := source }
  /-- The index is moved back. -/
  | back {target : Nat} (hlt : target < s.index) (hadmits : s.source.Admits (s.index - target))
      (hle : s.index - target ≤ s.source.cursor) :
      Move overrides s [.seekingBack s.index target] (s.retreat target)
  /-- Nothing is moved. -/
  | stay {events : List Event} (hlast : ∀ e ∈ events.getLast?, e.isAnnouncement = false) :
      Move overrides s events s
  | setLine (h : overrides) (line : Nat) :
      Move overrides s [] { s with position := { s.position with line := line } }
  | setColumn (h : overrides) (column : Nat) :
      Move overrides s [] { s with position := { s.position with column := column } }
  | mark {marks : MarkStack} (hvalid : marks.Valid) (hdepth : marks.depth = s.marks.depth + 1)
      (hentries : marks.entries = s.marks.entries ++ [s.position]) :
      Move overrides s [.marked ⟨s.marks.depth + 1⟩ s.position] { s with marks := marks }
  | release {m : Marker} (hopen : s.marks.isOpen m = true) :
      Move overrides s [.releasing m] { s with marks := s.marks.close m }
  /-- The way back to a mark is begun by going forward. -/
  | aim {m : Marker} {p : Position} (hle : s.index ≤ p.index) :
      Move overrides s [.rewinding m s.position p] s
  /-- The way back to a mark ends at the index that it has saved. -/
  | arrive {m : Marker} {p : Position} (hopen : s.marks.isOpen m = true)
      (hsaved : s.marks.entries[m.depth - 1]? = some p) (hindex : s.index = p.index) :
      Move overrides s [.releasing m] (s.returnTo m p)
  /-- The way back to a mark is one move back. -/
  | rewind {m : Marker} {p : Position} (hopen : s.marks.isOpen m = true)
      (hsaved : s.marks.entries[m.depth - 1]? = some p) (hlt : p.index < s.index)
      (hadmits : s.source.Admits (s.index - p.index)) (hle : s.index - p.index ≤ s.source.cursor) :
      Move overrides s [.rewinding m s.position p, .seekingBack s.index p.index, .releasing m]
        ((s.retreat p.index).returnTo m p)

/-- Moves one after another, and all that they report. -/
inductive Run (overrides : Prop) (s : Stream) : List Event → Stream → Prop
  | refl : Run overrides s [] s
  | move {events more : List Event} {mid after : Stream} (hrun : Run overrides s events mid)
      (hmove : Move overrides mid more after) : Run overrides s (events ++ more) after

variable {overrides : Prop} {s mid after : Stream} {events more : List Event}

theorem Move.run (h : Move overrides s events after) : Run overrides s events after :=
  Run.move .refl h

theorem Run.trans (h : Run overrides s events mid) (h' : Run overrides mid more after) :
    Run overrides s (events ++ more) after := by
  induction h' with
  | refl => rwa [List.append_nil]
  | move hrun hmove ih =>
      rw [← List.append_assoc]
      exact .move ih hmove

theorem Move.valid (hvalid : s.marks.Valid) (h : Move overrides s events after) : after.marks.Valid := by
  cases h with
  | mark hmarks => exact hmarks
  | release hopen => exact hvalid.close hopen
  | arrive hopen => exact hvalid.close hopen
  | rewind hopen => exact hvalid.close hopen
  | _ => exact hvalid

theorem Run.valid (hvalid : s.marks.Valid) (h : Run overrides s events after) : after.marks.Valid := by
  induction h with
  | refl => exact hvalid
  | move hrun hmove ih => exact hmove.valid ih

theorem Move.evolves (h : Move overrides s events after) : s.source.Evolves after.source := by
  cases h with
  | pass hevolves => exact hevolves
  | peek hevolves => exact hevolves
  | overrun hevolves => exact hevolves
  | back => exact .takeBack _ _
  | rewind => exact .takeBack _ _
  | _ => exact .refl _

theorem Run.evolves (h : Run overrides s events after) : s.source.Evolves after.source := by
  induction h with
  | refl => exact .refl _
  | move hrun hmove ih => exact ih.trans hmove.evolves

theorem Move.name (h : Move overrides s events after) : after.name = s.name := by
  cases h <;> rfl

theorem Run.name (h : Run overrides s events after) : after.name = s.name := by
  induction h with
  | refl => rfl
  | move hrun hmove ih => exact hmove.name.trans ih

/-- From one state and journal to another there is a run that reports what has been added. -/
def Reaches (overrides : Prop) (s : Stream) (journal : Journal) (after : Stream) (journal' : Journal) :
    Prop :=
  ∃ events, journal'.toList = journal.toList ++ events ∧ Run overrides s events after

variable {journal journal' journal'' : Journal}

theorem Reaches.refl (s : Stream) (journal : Journal) : Reaches overrides s journal s journal :=
  ⟨[], by simp, .refl⟩

theorem Reaches.trans (h : Reaches overrides s journal mid journal')
    (h' : Reaches overrides mid journal' after journal'') : Reaches overrides s journal after journal'' := by
  obtain ⟨events, hevents, hrun⟩ := h
  obtain ⟨more, hmore, hrun'⟩ := h'
  refine ⟨events ++ more, ?_, hrun.trans hrun'⟩
  rw [hmore, hevents, List.append_assoc]

theorem Move.reaches (h : Move overrides s events after)
    (hjournal : journal'.toList = journal.toList ++ events) :
    Reaches overrides s journal after journal' :=
  ⟨events, hjournal, h.run⟩

theorem Reaches.valid (h : Reaches overrides s journal after journal') (hvalid : s.marks.Valid) :
    after.marks.Valid := by
  obtain ⟨events, -, hrun⟩ := h
  exact hrun.valid hvalid

end Stream

end Backtrack
