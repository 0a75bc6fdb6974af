import Backtrack.Source.Decoder
import Backtrack.Source.History

/-! Sources of symbols. A source reads forward one symbol at a time, takes reads back, and gives out any
range of what it has delivered. A text is retained from the start and leaves the decoder nothing to do;
a reader is decoded when the cursor reaches the end of what is retained. -/

namespace Backtrack

structure Source where
  history : History
  decoder : Decoder
deriving DecidableEq, Repr

namespace Source

def ofText (text : List Char) (window : Option Nat) : Source :=
  ⟨History.ofChars text window, Decoder.finished⟩

def ofReader (reader : Reader) (window : Option Nat) (chunkSize : Nat) : Source :=
  ⟨History.ofChars [] window, Decoder.ofReader reader chunkSize⟩

/-- Refuses a chunk that cannot be allocated. -/
def openReader (reader : Reader) (window : Option Nat) (chunkSize : Nat) : Except Breach Source :=
  if allocationLimit < max chunkSize 1 then .error .capacityOverflow
  else .ok (ofReader reader window chunkSize)

def cursor (s : Source) : Nat :=
  s.history.cursor

def retained (s : Source) : Nat :=
  s.history.retained

@[inline]
def onHistory {α : Type} (x : Action History α) : Action Source α := fun s journal =>
  match s with
  | ⟨history, decoder⟩ =>
    match x history journal with
    | ⟨result, history, journal⟩ => ⟨result, ⟨history, decoder⟩, journal⟩

/-- Retains one more character when the cursor has reached the end of what is retained and there is
one. -/
def refill : Action Source Unit := fun s journal =>
  match s with
  | ⟨history, decoder⟩ =>
    if history.isExhausted && !decoder.isFinished then
      match decoder.next history.retained journal with
      | ⟨.ok (some c), decoder, journal⟩ => ⟨.ok (), ⟨history.push c, decoder⟩, journal⟩
      | ⟨.ok none, decoder, journal⟩ => ⟨.ok (), ⟨history, decoder⟩, journal⟩
      | ⟨.error stop, decoder, journal⟩ => ⟨.error stop, ⟨history, decoder⟩, journal⟩
    else ⟨.ok (), ⟨history, decoder⟩, journal⟩

def read : Action Source Symbol := do
  refill
  onHistory History.next

def backup (count : Nat) : Action Source Unit :=
  onHistory (History.backup count)

def range (s : Source) (start stop : Nat) : Except Fault String :=
  (s.history.range start stop).map String.ofList

/-- The text of the next `count` symbols. The end of input, which is read too, cuts it short. -/
def readText : Nat → Action Source String :=
  go []
where
  go (seen : List Char) : Nat → Action Source String
    | 0 => pure (String.ofList seen.reverse)
    | count + 1 => do
      match ← read with
      | .char c => go (c :: seen) count
      | .eof => pure (String.ofList seen.reverse)

end Source

end Backtrack
