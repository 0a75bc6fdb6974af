import Backtrack.Action

/-! The history of a source: every character delivered so far is retained, and a cursor says how many
reads have been made and not been taken back. Reads of the end of input count too, so the cursor may
stand beyond the retained characters. A window bounds how many reads one backup may take back. -/

namespace Backtrack

structure History where
  chars : Array Char
  cursor : Nat
  window : Option Nat
deriving DecidableEq, Repr

namespace History

def ofChars (chars : List Char) (window : Option Nat) : History :=
  ⟨chars.toArray, 0, window⟩

def retained (h : History) : Nat :=
  h.chars.size

def isExhausted (h : History) : Bool :=
  h.retained ≤ h.cursor

def push (h : History) (c : Char) : History :=
  { h with chars := h.chars.push c }

/-- The symbol at the cursor. -/
def current (h : History) : Symbol :=
  match h.chars[h.cursor]? with
  | some c => .char c
  | none => .eof

def next : Action History Symbol := fun h journal =>
  if counterLimit ≤ h.cursor then ⟨.error (.breach .counterOverflow), h, journal⟩
  else ⟨.ok h.current, { h with cursor := h.cursor + 1 }, journal⟩

/-- Takes back the last `count` reads. The window is checked before the start of the input. -/
def backup (count : Nat) : Action History Unit := fun h journal =>
  match h.window with
  | some window =>
    if window < count then
      ⟨.error (.fault (.backupWindowExceeded count window)), h,
        journal.push (.backupBeyondWindow count window)⟩
    else takeBack h journal
  | none => takeBack h journal
where
  takeBack (h : History) (journal : Journal) : Outcome History Unit :=
    if h.cursor < count then
      ⟨.error (.fault (.backupUnderflow count h.cursor)), h,
        journal.push (.backupBeforeStart count h.cursor)⟩
    else ⟨.ok (), { h with cursor := h.cursor - count }, journal⟩

/-- The retained characters `start`, …, `stop - 1`, wherever the cursor stands. -/
def range (h : History) (start stop : Nat) : Except Fault (List Char) :=
  if start ≤ stop ∧ stop ≤ h.retained then .ok (h.chars.extract start stop).toList
  else .error (.rangeOutOfBounds start stop h.retained)

end History

end Backtrack
