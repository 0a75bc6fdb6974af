import Backtrack.Stream

/-! Scans over a stream: a report on every symbol, and the search for a word. Both end with the input. A
round moves the index forward, so there are no more rounds than the index has values to come. -/

namespace Backtrack

/-- What stands at a position: the symbol there and the symbols behind it. -/
structure SymbolReport where
  position : Position
  symbol : Symbol
  ahead : List Symbol
deriving DecidableEq, Repr

/-- An occurrence of a word, with the text as it stands in the input. -/
structure Occurrence where
  position : Position
  text : String
deriving DecidableEq, Repr

namespace Stream

/-- Bytes that a symbol takes in a list of symbols. -/
def symbolSize : Nat := 4

/-- One more than the moves forward that the index can make. -/
def roundLimit (s : Stream) : Nat :=
  counterLimit + 1 - s.index

/-- The symbols number `i`, …, `i + count - 1` ahead. -/
def lookaheads (i : Nat) : Nat → Action Stream (List Symbol)
  | 0 => pure []
  | count + 1 => do
    let symbol ← lookahead i
    let rest ← lookaheads (i + 1) count
    pure (symbol.getD .eof :: rest)

/-- Refuses to look ahead so far that the symbols could not be listed. -/
def reserve (count : Nat) : Action Stream Unit :=
  if allocationLimit < count * symbolSize then Action.breach .capacityOverflow else pure ()

/-- At most `rounds` reports, until the end of input. -/
def inspectRounds (count : Nat) (seen : List SymbolReport) : Nat → Action Stream (List SymbolReport)
  | 0 => pure seen.reverse
  | rounds + 1 => do
    match (← lookahead 1).getD .eof with
    | .eof => pure seen.reverse
    | .char c => do
      reserve count
      let ahead ← lookaheads 2 count
      let position ← query Stream.position
      advance
      inspectRounds count (⟨position, .char c, ahead⟩ :: seen) rounds

/-- Reports on every symbol up to the end of input or the limit, with `count` symbols behind it. -/
def inspect (count : Nat) (limit : Option Nat) : Action Stream (List SymbolReport) := do
  let rounds ← query roundLimit
  let reports ← inspectRounds count [] (limit.elim rounds (min rounds))
  Action.emit (.inspected reports.length)
  pure reports

def findRounds (word : List Char) (seen : List Occurrence) : Nat → Action Stream (List Occurrence)
  | 0 => pure seen.reverse
  | rounds + 1 => do
    if (← lookahead 1) = some .eof then pure seen.reverse
    else do
      let start ← query Stream.position
      if ← matchesText word then
        let text ← substring start.index (← query index)
        Action.emit (.matched start)
        findRounds word (⟨start, text⟩ :: seen) rounds
      else do
        advance
        findRounds word seen rounds

/-- The occurrences of a word from the position on, from left to right and without overlap. In a stream
that folds letters the word has to be folded. There is none of the empty word. -/
def find (word : List Char) : Action Stream (List Occurrence) :=
  if word.isEmpty then pure []
  else do
    let rounds ← query roundLimit
    findRounds word [] rounds

end Stream

/-- The word to look for in a stream that folds letters, or does not. -/
def foldWord (word : List Char) (caseFold : Bool) : List Char :=
  if caseFold then word.filterMap fun c => (Symbol.char c).foldCase.char? else word

end Backtrack
