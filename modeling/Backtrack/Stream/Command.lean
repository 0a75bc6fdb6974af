import Backtrack.Search

/-! Runs of stream operations. A command is one operation with its arguments; a run carries out commands
one after another, each on the state that the one before has left, whether it answered or stopped. Marks
are named by handles, which count the marks in the order in which they were handed out. -/

namespace Backtrack.Stream

inductive Command where
  | advance (count : Nat)
  | lookahead (i : Nat)
  | line
  | column
  | index
  | size
  | name
  | position
  | setLine (line : Nat)
  | setColumn (column : Nat)
  | mark
  /-- Gets hold of a mark of the given depth that another stack has handed out. -/
  | foreign (depth : Nat)
  | rewind
  | rewindTo (handle : Nat)
  | release (handle : Nat)
  | isOpen (handle : Nat)
  | seek (target : Nat)
  | substring (start stop : Nat)
  | matchesText (text : String)
  | find (word : String)
  | inspect (count : Nat) (limit : Option Nat)
  /-- Tries the commands of `body` and keeps what they did if `commit` says so. A fault is part of the
  answer, unless `raise` makes it the fault of this command. -/
  | speculate (body : List Command) (commit raise : Bool)

/-- What can be seen of a stream between two commands. -/
structure View where
  position : Position
  depth : Nat
  cursor : Nat
  retained : Nat
deriving DecidableEq, Repr

def view (s : Stream) : View :=
  ⟨s.position, s.marks.depth, s.source.cursor, s.source.retained⟩

inductive Reply where
  | done
  | symbol (symbol : Option Symbol)
  | number (n : Nat)
  | length (n : Option Nat)
  | flag (b : Bool)
  | text (text : String)
  | marker (marker : Marker)
  | occurrences (found : List Occurrence)
  | reports (reports : List SymbolReport)
  /-- The outcome of an attempt and, for each of its commands that was begun, the answer or the fault
  that ended the attempt, with the view after it. -/
  | speculated (outcome : Except Fault (Option Nat)) (steps : List (Reply × View))
  | failed (f : Fault)

/-- A stream, the marks that have been handed out, and the steps of the attempt that is under way. -/
structure Workbench where
  stream : Stream
  handles : Array Marker
  trail : List (Reply × View)

namespace Workbench

def ofStream (s : Stream) : Workbench :=
  ⟨s, #[], []⟩

instance : HasStream Workbench where
  onStream x w journal :=
    match w with
    | ⟨stream, handles, trail⟩ =>
      match x stream journal with
      | ⟨result, stream, journal⟩ => ⟨result, ⟨stream, handles, trail⟩, journal⟩

open HasStream (onStream)

def query {α : Type} (f : Stream → α) : Action Workbench α :=
  onStream (Stream.query f)

def handOut (marker : Marker) : Action Workbench Unit :=
  Action.modify fun w => { w with handles := w.handles.push marker }

/-- The mark with the given handle; a handle that was not handed out names no mark of any stack. -/
def marker (handle : Nat) : Action Workbench Marker :=
  fun w journal => ⟨.ok (w.handles[handle]?.getD ⟨0⟩), w, journal⟩

/-- Adds a step to the trail. -/
def record (reply : Reply) : Action Workbench Unit :=
  Action.modify fun w => { w with trail := (reply, w.stream.view) :: w.trail }

/-- Replaces the trail and answers with the one before. -/
def exchangeTrail (trail : List (Reply × View)) : Action Workbench (List (Reply × View)) :=
  fun w journal => ⟨.ok w.trail, { w with trail := trail }, journal⟩

mutual

/-- Carries out one command. -/
def perform : Command → Action Workbench Reply
  | .advance count => do
    onStream (Action.times Stream.advance count)
    pure .done
  | .lookahead i => .symbol <$> onStream (Stream.lookahead i)
  | .line => .number <$> query fun s => s.position.line
  | .column => .number <$> query fun s => s.position.column
  | .index => .number <$> query Stream.index
  | .size => .length <$> query Stream.size
  | .name => .text <$> query Stream.name
  | .position => .text <$> query fun s => toString s.position
  | .setLine line => do
    onStream (Stream.setLine line)
    pure .done
  | .setColumn column => do
    onStream (Stream.setColumn column)
    pure .done
  | .mark => do
    let marker ← onStream Stream.mark
    handOut marker
    pure (.marker marker)
  | .foreign depth => do
    handOut ⟨depth⟩
    pure .done
  | .rewind => do
    onStream Stream.rewind
    pure .done
  | .rewindTo handle => do
    onStream (Stream.rewindTo (← marker handle))
    pure .done
  | .release handle => do
    onStream (Stream.release (← marker handle))
    pure .done
  | .isOpen handle => do
    let marker ← marker handle
    .flag <$> query fun s => s.marks.isOpen marker
  | .seek target => do
    onStream (Stream.seek target)
    pure .done
  | .substring start stop => .text <$> onStream (Stream.substring start stop)
  | .matchesText text => .flag <$> onStream (Stream.matchesText text.toList)
  | .find word => .occurrences <$> onStream (Stream.find word.toList)
  | .inspect count limit => .reports <$> onStream (Stream.inspect count limit)
  | .speculate body commit raise => do
    let outer ← exchangeTrail []
    let outcome ← (speculate (do
      performAll body
      let index ← query Stream.index
      pure (if commit then some index else none))).attempt
    let steps ← exchangeTrail outer
    match outcome, raise with
    | .error f, true => Action.fail f
    | outcome, _ => pure (.speculated outcome steps.reverse)

/-- Carries out the commands of an attempt until one fails, and keeps their trail. -/
def performAll : List Command → Action Workbench Unit
  | [] => pure ()
  | command :: commands => do
    match ← (perform command).attempt with
    | .ok reply => do
      record reply
      performAll commands
    | .error f => do
      record (.failed f)
      Action.fail f

end

end Workbench

/-- One step of a run: the answer or what stopped it, the view after it, and what it reported. -/
structure Step where
  result : Except Stop Reply
  view : View
  journal : Journal

/-- Carries out one command on its own and adds to the journal. A breach within attempts abandons all of
them. -/
def Workbench.step (w : Workbench) (journal : Journal) (command : Command) :
    Step × Workbench × Journal :=
  let before := journal.size
  match Workbench.perform command { w with trail := [] } journal with
  | ⟨result, w, journal⟩ => (⟨result, w.stream.view, journal.extract before journal.size⟩, w, journal)

/-- Carries out commands one after another, with one journal for all of them. -/
def Workbench.run (w : Workbench) (journal : Journal) : List Command → List Step × Journal
  | [] => ([], journal)
  | command :: commands =>
    match w.step journal command with
    | (step, w, journal) =>
      match w.run journal commands with
      | (steps, journal) => (step :: steps, journal)

end Backtrack.Stream
