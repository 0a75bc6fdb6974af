/-! Why an operation ends without a value. A fault is reported to the caller, who may go on. A breach is
a broken promise of the caller or an exhausted counter: it ends everything that is under way. Either
way the state that the operation has reached stays. -/

namespace Backtrack

/-- Counters are 64 bits wide; this is the largest value. -/
def counterLimit : Nat := Nat.pow 2 64 - 1

/-- No block of memory has more bytes than this. -/
def allocationLimit : Nat := Nat.pow 2 63 - 1

inductive Fault where
  | backupUnderflow (requested available : Nat)
  | backupWindowExceeded (requested window : Nat)
  | rangeOutOfBounds (start stop length : Nat)
  | io (reason : String)
deriving DecidableEq, Repr

def Fault.message : Fault → String
  | .backupUnderflow requested available =>
      s!"Cannot back up {requested} units, only {available} have been read"
  | .backupWindowExceeded requested window =>
      s!"Backup of {requested} units exceeds the backup window of {window}"
  | .rangeOutOfBounds start stop length =>
      s!"Range {start}..{stop} out of bounds for {length} retained units"
  | .io reason => s!"IO error: {reason}"

inductive Breach where
  | counterOverflow
  | capacityOverflow
  | markNotOpen (mark depth : Nat)
  | slotMissing (index length : Nat)
  | configMissing
  | configPresent
deriving DecidableEq, Repr

def Breach.message : Breach → String
  | .counterOverflow => "attempt to add with overflow"
  | .capacityOverflow => "capacity overflow"
  | .markNotOpen mark depth => s!"mark #{mark} is not open (depth {depth})"
  | .slotMissing index length =>
      s!"index out of bounds: the len is {length} but the index is {index}"
  | .configMissing => "Config not initialized"
  | .configPresent => "Config already initialized"

inductive Stop where
  | fault (f : Fault)
  | breach (b : Breach)
deriving DecidableEq, Repr

def Stop.message : Stop → String
  | .fault f => f.message
  | .breach b => b.message

end Backtrack
