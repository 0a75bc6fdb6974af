import Backtrack.Marks
import Backtrack.Source

/-! Streams: a source with a position and a stack of marks. Looking ahead reads forward and takes the
reads back, so a stream keeps no text of its own. Only rewinding restores the line and the column;
seeking backward moves the index alone. -/

namespace Backtrack

structure Stream where
  source : Source
  name : String
  position : Position
  marks : MarkStack
  caseFold : Bool
deriving DecidableEq, Repr

namespace Stream

/-- A stream at the start of a source, with nothing marked. -/
def ofSource (source : Source) (name : String) (caseFold : Bool) : Stream :=
  ⟨source, name, Position.start, MarkStack.empty, caseFold⟩

/-- The stream and the report of its creation. -/
def create (source : Source) (name : String) (caseFold : Bool) : Stream × Journal :=
  (ofSource source name caseFold, #[.streamCreated name caseFold none])

/-- A stream with room for `capacity` marks, if there can be that room, and the report of its
creation, which comes first. -/
def createWithCapacity (source : Source) (name : String) (caseFold : Bool) (capacity : Nat) :
    Except Breach Stream × Journal :=
  ((MarkStack.allocate capacity).map fun marks =>
      { ofSource source name caseFold with marks := marks },
    #[.streamCreated name caseFold (some capacity)])

def index (s : Stream) : Nat :=
  s.position.index

/-- The length of the input, which a stream never knows. -/
def size (_ : Stream) : Option Nat :=
  none

@[inline]
def onSource {α : Type} (x : Action Source α) : Action Stream α := fun s journal =>
  match s with
  | ⟨source, name, position, marks, caseFold⟩ =>
    match x source journal with
    | ⟨result, source, journal⟩ => ⟨result, ⟨source, name, position, marks, caseFold⟩, journal⟩

@[inline]
def onMarks {α : Type} (x : Action MarkStack α) : Action Stream α := fun s journal =>
  match s with
  | ⟨source, name, position, marks, caseFold⟩ =>
    match x marks journal with
    | ⟨result, marks, journal⟩ => ⟨result, ⟨source, name, position, marks, caseFold⟩, journal⟩

@[inline]
def query {α : Type} (f : Stream → α) : Action Stream α :=
  fun s journal => ⟨.ok (f s), s, journal⟩

/-- Moves the position past a symbol that has been read. -/
@[inline]
def pass (symbol : Symbol) : Action Stream Unit := fun s journal =>
  match s.position.advance symbol with
  | (position, none) => ⟨.ok (), { s with position := position }, journal⟩
  | (position, some b) => ⟨.error (.breach b), { s with position := position }, journal⟩

/-- Consumes one symbol. -/
def advance : Action Stream Unit := do
  let symbol ← onSource Source.read
  pass symbol

/-- Reads `count` more symbols and answers with the last one. When a read fails, the `done` earlier
ones are taken back; whether that succeeds is not looked at. -/
def readOn (done : Nat) (last : Symbol) : Nat → Action Stream Symbol
  | 0 => pure last
  | count + 1 => do
    match ← (onSource Source.read).attempt with
    | .ok symbol => readOn (done + 1) symbol count
    | .error f => do
      let _ ← (onSource (Source.backup done)).attempt
      Action.fail f

/-- The `i`-th symbol ahead, folded if the stream folds letters; there is none for zero. -/
def lookahead (i : Nat) : Action Stream (Option Symbol) :=
  if i = 0 then pure none
  else do
    let symbol ← readOn 0 .eof i
    onSource (Source.backup i)
    let caseFold ← query Stream.caseFold
    pure (some (if caseFold then symbol.foldCase else symbol))

@[inline]
def setLine (line : Nat) : Action Stream Unit :=
  Action.modify fun s => { s with position := { s.position with line := line } }

@[inline]
def setColumn (column : Nat) : Action Stream Unit :=
  Action.modify fun s => { s with position := { s.position with column := column } }

@[inline]
def setIndex (index : Nat) : Action Stream Unit :=
  Action.modify fun s => { s with position := { s.position with index := index } }

/-- Moves to an index: back in one backup, which leaves the line and the column, or forward symbol by
symbol. -/
def seek (target : Nat) : Action Stream Unit := do
  let here ← query index
  if target < here then
    Action.emit (.seekingBack here target)
    onSource (Source.backup (here - target))
    setIndex target
  else Action.times advance (target - here)

/-- Opens a mark at the position. -/
def mark : Action Stream Marker := do
  let here ← query position
  let marker ← onMarks (MarkStack.push here)
  Action.emit (.marked marker here)
  pure marker

/-- Closes a mark and all deeper ones; the position stays. -/
def release (marker : Marker) : Action Stream Unit := do
  Action.emit (.releasing marker)
  onMarks (MarkStack.release marker)

/-- The position that an open mark has saved. -/
def saved (marker : Marker) : Action Stream Position :=
  onMarks (MarkStack.get marker)

/-- Goes back to the position of a mark and closes it. When the way back fails, the mark stays open. -/
def rewindTo (marker : Marker) : Action Stream Unit := do
  let target ← saved marker
  let here ← query position
  Action.emit (.rewinding marker here target)
  seek target.index
  setLine target.line
  setColumn target.column
  release marker

/-- Goes back to the mark that was opened last. -/
def rewind : Action Stream Unit := do
  rewindTo (← query fun s => s.marks.lastOpened)

def substring (start stop : Nat) : Action Stream String := fun s journal =>
  match s.source.range start stop with
  | .ok text => ⟨.ok text, s, journal⟩
  | .error f => ⟨.error (.fault f), s, journal⟩

/-- States that have a stream in them, on which its actions can be carried out. -/
class HasStream (σ : Type) where
  onStream {α : Type} (x : Action Stream α) : Action σ α

instance : HasStream Stream where
  onStream x := x

open HasStream (onStream)

/-- Tries `body` under a mark of its own. A value keeps the new position, no value goes back to where
the attempt began, and a fault stays where it happened; in each case the mark is closed. -/
def speculate {σ α : Type} [HasStream σ] (body : Action σ (Option α)) : Action σ (Option α) := do
  let marker ← onStream mark
  match ← body.attempt with
  | .ok (some a) => do
    onStream (release marker)
    pure (some a)
  | .ok none => do
    match ← Action.attempt (onStream (rewindTo marker) : Action σ Unit) with
    | .ok () => pure none
    | .error f => do
      onStream (release marker)
      Action.fail f
  | .error f => do
    onStream (release marker)
    Action.fail f

/-- Consumes the symbols of `text` as long as they are what comes next. -/
def consume : List Char → Action Stream (Option Unit)
  | [] => pure (some ())
  | c :: rest => do
    if (← lookahead 1) = some (.char c) then
      advance
      consume rest
    else pure none

/-- Whether `text` comes next. It is then consumed; otherwise the position stays. In a stream that folds
letters the text has to be folded. -/
def matchesText (text : List Char) : Action Stream Bool := do
  let found ← speculate (consume text)
  pure found.isSome

end Stream

end Backtrack
