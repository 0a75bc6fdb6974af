import Backtrack.Action

/-! The stack of marks. A mark saves a position in the slot whose number is the depth of the mark; slot
zero is reserved. Releasing a mark only lowers the depth: the slots above stay
allocated and are written again by later marks. Marks that are no longer open, or come from another
stack, can still be presented; they are then refused. -/

namespace Backtrack

structure MarkStack where
  slots : Array Position
  depth : Nat
  last : Nat
deriving DecidableEq, Repr

namespace MarkStack

/-- A stack without open marks that has room for `capacity` of them. -/
def withCapacity (capacity : Nat) : MarkStack where
  slots := Array.replicate (capacity + 1) Position.start
  depth := 0
  last := 0

def empty : MarkStack := withCapacity 0

/-- Bytes that a slot takes. -/
def slotSize : Nat := 24

/-- Refuses a capacity whose slots cannot be counted or cannot be allocated. -/
def allocate (capacity : Nat) : Except Breach MarkStack :=
  if counterLimit ≤ capacity then .error .counterOverflow
  else if allocationLimit < (capacity + 1) * slotSize then .error .capacityOverflow
  else .ok (withCapacity capacity)

/-- The number of slots beside the reserved one. -/
def allocated (s : MarkStack) : Nat :=
  s.slots.size - 1

def isOpen (s : MarkStack) (m : Marker) : Bool :=
  1 ≤ m.depth && m.depth ≤ s.depth

/-- The mark that was opened last, whether or not it is still open. -/
def lastOpened (s : MarkStack) : Marker := ⟨s.last⟩

/-- Opens a mark one level deeper, in the slot that is already there or in a new one. -/
def push (p : Position) : Action MarkStack Marker := fun s journal =>
  match s with
  | ⟨slots, depth, last⟩ =>
    if depth + 1 = slots.size then ⟨.ok ⟨depth + 1⟩, ⟨slots.push p, depth + 1, depth + 1⟩, journal⟩
    else if h : depth + 1 < slots.size then
      ⟨.ok ⟨depth + 1⟩, ⟨slots.set (depth + 1) p, depth + 1, depth + 1⟩, journal⟩
    else ⟨.error (.breach (.slotMissing (depth + 1) slots.size)), ⟨slots, depth + 1, last⟩, journal⟩

/-- The position that an open mark has saved. -/
def get (m : Marker) : Action MarkStack Position := fun s journal =>
  if s.isOpen m then
    match s.slots[m.depth]? with
    | some p => ⟨.ok p, s, journal⟩
    | none => ⟨.error (.breach (.slotMissing m.depth s.slots.size)), s, journal⟩
  else ⟨.error (.breach (.markNotOpen m.depth s.depth)), s, journal⟩

/-- Closes an open mark and all deeper ones. -/
def release (m : Marker) : Action MarkStack Unit := fun s journal =>
  if s.isOpen m then ⟨.ok (), { s with depth := m.depth - 1 }, journal⟩
  else ⟨.error (.breach (.markNotOpen m.depth s.depth)), s, journal⟩

end MarkStack

end Backtrack
