import Backtrack.Stop
import Backtrack.Symbol

/-! Positions in a stream of symbols: how many symbols lie before, the line counted from one and the
column counted from zero; and the names of the marks that save them. -/

namespace Backtrack

structure Position where
  index : Nat
  line : Nat
  column : Nat
deriving DecidableEq, Repr, Inhabited

namespace Position

def start : Position := ⟨0, 1, 0⟩

instance : ToString Position where
  toString p := s!"{p.line}:{p.column}@{p.index}"

/-- The position behind one symbol, with counters that never end. The end of input takes a place on
its line like a character. -/
def next (p : Position) (s : Symbol) : Position :=
  if s.isLineTerminator then ⟨p.index + 1, p.line + 1, 0⟩ else ⟨p.index + 1, p.line, p.column + 1⟩

/-- Passes over one symbol with counters of 64 bits. The index counts first, then the line or the
column; at a counter that is full the step breaks off and leaves the position as far as it got. -/
def advance (p : Position) (s : Symbol) : Position × Option Breach :=
  if counterLimit ≤ p.index then (p, some .counterOverflow)
  else if counterLimit ≤ (if s.isLineTerminator then p.line else p.column) then
    (⟨p.index + 1, p.line, p.column⟩, some .counterOverflow)
  else (p.next s, none)

end Position

/-- A mark is named by its depth, counted from one. The name says nothing about whether the mark is
open. -/
structure Marker where
  depth : Nat
deriving DecidableEq, Repr, Inhabited

instance : ToString Marker where
  toString m := s!"#{m.depth}"

end Backtrack
