import Backtrack.Action
import Backtrack.Source.Delivery
import Backtrack.Utf8

/-! Decoding a reader one character at a time. Bytes are pulled in chunks when, and only when, those at
hand do not settle the next character. Bytes behind `offset` in the buffer are undecoded; the others
are dropped from the buffer at the next pull. What is not well-formed is given up one byte at a time,
with a warning and U+FFFD in its place, so that nothing well-formed behind it is lost. -/

namespace Backtrack

structure Decoder where
  reader : Reader
  chunkSize : Nat
  buffer : Array UInt8
  offset : Nat
  drained : Bool
deriving DecidableEq, Repr

namespace Decoder

def ofReader (reader : Reader) (chunkSize : Nat) : Decoder :=
  ⟨reader, max chunkSize 1, #[], 0, false⟩

/-- A decoder that has nothing to deliver. -/
def finished : Decoder :=
  ⟨⟨[], .finished⟩, 1, #[], 0, true⟩

def undecoded (d : Decoder) : List UInt8 :=
  (d.buffer.extract d.offset d.buffer.size).toList

/-- The first undecoded bytes, as many as the longest sequence has. -/
def front (d : Decoder) : List UInt8 :=
  (d.buffer.extract d.offset (d.offset + 4)).toList

def isFinished (d : Decoder) : Bool :=
  d.drained && d.undecoded.isEmpty

def skip (d : Decoder) (count : Nat) : Decoder :=
  { d with offset := d.offset + count }

/-- A decoded character, the number of its bytes and the warning that goes with it. -/
structure Taken where
  char : Char
  length : Nat
  warning : Option Event
deriving DecidableEq, Repr

/-- The character at the front, or nothing if its sequence is not all there. `index` is the number of
the character in the input. -/
def take? (index : Nat) (bytes : List UInt8) : Option Taken :=
  match bytes with
  | [] => none
  | lead :: _ =>
    match Utf8.announcedLength lead with
    | none => some ⟨Utf8.replacement, 1, some (.invalidLead lead index)⟩
    | some n =>
      if bytes.length < n then none
      else
        match Utf8.char? (bytes.take n) with
        | some c => some ⟨c, n, none⟩
        | none => some ⟨Utf8.replacement, 1, some (.illFormed (bytes.take n) index)⟩

theorem length_lt_of_take? {index : Nat} {bytes : List UInt8} (h : take? index bytes = none) :
    bytes.length < 4 := by
  unfold take? at h
  split at h
  · decide
  · rename_i lead rest
    split at h
    · cases h
    · rename_i n hn
      split at h
      · have := Utf8.announcedLength_le hn
        omega
      · split at h <;> cases h

/-- Bytes beyond the longest sequence do not matter: when the front settles nothing, it is all there is. -/
theorem length_undecoded_lt {index : Nat} {d : Decoder} (h : take? index d.front = none) :
    d.undecoded.length < 4 := by
  have := length_lt_of_take? h
  simp only [front, undecoded, Array.length_toList, Array.size_extract] at *
  omega

/-- Pulls one chunk. The undecoded bytes stay, also when the read fails. -/
def fill : Action Decoder Unit := fun d journal =>
  let pulled := d.reader.pull d.chunkSize journal
  let kept := d.buffer.extract d.offset d.buffer.size
  match pulled.1 with
  | .ok [] =>
    ⟨.ok (), ⟨pulled.2, d.chunkSize, kept, 0, true⟩, journal.push .readerDrained⟩
  | .ok bytes =>
    ⟨.ok (), ⟨pulled.2, d.chunkSize, kept ++ bytes, 0, d.drained⟩, journal.push (.chunkPulled bytes.length)⟩
  | .error reason =>
    ⟨.error (.fault (.io reason)), ⟨pulled.2, d.chunkSize, kept, 0, d.drained⟩,
      journal.push (.readerFailed reason)⟩

/-- Bounds the pulls that can be made before the next character is settled. -/
def hunger (d : Decoder) : Nat :=
  if d.drained then 0 else 5 - d.undecoded.length

/-- A pull that does not fail brings bytes or the end of the input. -/
theorem hunger_fill_lt {d filled : Decoder} {journal after : Journal} (hdrained : d.drained = false)
    (hshort : d.undecoded.length < 4) (hfill : d.fill journal = ⟨.ok (), filled, after⟩) :
    filled.hunger < d.hunger := by
  unfold fill at hfill
  revert hfill
  dsimp only
  split
  · intro hfill
    cases hfill
    simp only [hunger, hdrained, if_true, Bool.false_eq_true, if_false]
    omega
  · rename_i bytes hempty _
    intro hfill
    cases hfill
    have hpos : 0 < bytes.length := List.length_pos_iff.mpr hempty
    simp [hunger, hdrained, undecoded] at hshort ⊢
    omega
  · intro hfill
    cases hfill

/-- The next character, or nothing at the end of the input. -/
def next (index : Nat) (d : Decoder) (journal : Journal) : Outcome Decoder (Option Char) :=
  match htake : take? index d.front with
  | some taken =>
    ⟨.ok (some taken.char), d.skip taken.length,
      match taken.warning with
      | some warning => journal.push warning
      | none => journal⟩
  | none =>
    if hdrained : d.drained then
      match d.undecoded with
      | [] => ⟨.ok none, d, journal⟩
      | bytes => ⟨.ok (some Utf8.replacement), d.skip 1, journal.push (.incomplete bytes index)⟩
    else
      match hfill : d.fill journal with
      | ⟨.ok (), filled, journal⟩ =>
        have := hunger_fill_lt (by simpa using hdrained) (length_undecoded_lt htake) hfill
        next index filled journal
      | ⟨.error stop, filled, journal⟩ => ⟨.error stop, filled, journal⟩
termination_by d.hunger

end Decoder

end Backtrack
