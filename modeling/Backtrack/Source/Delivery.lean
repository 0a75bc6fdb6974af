import Backtrack.Log.Line

/-! Where bytes come from. A delivery is one thing that happens at a read: bytes arrive, the read is
interrupted, or it fails. A reader is the list of the deliveries still to come and what every read finds
behind the last one: the end of the input, a failure that does not go away, or a file that grows while
it is read, because the journal of the very run is written to it. -/

namespace Backtrack

inductive Delivery where
  | bytes (bytes : List UInt8)
  | interrupted
  | failure (reason : String)
deriving DecidableEq, Repr

/-- A log file that is read while it is written. The bytes of the first `seen` events of the journal are
among those that have been read or are `unread`; at most `size` bytes are fetched at a time. -/
structure GrowingFile where
  unread : List UInt8
  writer : Log.Writer
  seen : Nat
  size : Nat
deriving DecidableEq, Repr

/-- The bytes up to the present end of the file. -/
def GrowingFile.available (file : GrowingFile) (journal : Journal) : List UInt8 :=
  file.unread ++ file.writer.bytes (journal.extract file.seen journal.size)

inductive Ending where
  | finished
  | failing (reason : String)
  | growing (file : GrowingFile)
deriving DecidableEq, Repr

structure Reader where
  deliveries : List Delivery
  ending : Ending
deriving DecidableEq, Repr

namespace Reader

def ofBytes (bytes : List UInt8) : Reader :=
  ⟨[.bytes bytes], .finished⟩

/-- The deliveries that are left when all but the first `size` bytes of one stay behind. -/
def leave (size : Nat) (bytes : List UInt8) (rest : List Delivery) : List Delivery :=
  if (bytes.drop size).isEmpty then rest else .bytes (bytes.drop size) :: rest

/-- A read behind the last delivery. -/
def pullEnding (size : Nat) (journal : Journal) : Ending → Except String (List UInt8) × Reader
  | .finished => (.ok [], ⟨[], .finished⟩)
  | .failing reason => (.error reason, ⟨[], .failing reason⟩)
  | .growing file =>
    let available := file.available journal
    (.ok ((available.take file.size).take size),
      ⟨leave size (available.take file.size) [],
        .growing { file with unread := available.drop file.size, seen := journal.size }⟩)

/-- A read into a buffer of `size` bytes: its result and the reader behind it. An interrupted read is
repeated. Bytes that do not fit are left for the next read; no bytes mean the end of the input. -/
def pullFrom (size : Nat) (journal : Journal) (ending : Ending) :
    List Delivery → Except String (List UInt8) × Reader
  | [] => pullEnding size journal ending
  | .interrupted :: rest => pullFrom size journal ending rest
  | .failure reason :: rest => (.error reason, ⟨rest, ending⟩)
  | .bytes bytes :: rest => (.ok (bytes.take size), ⟨leave size bytes rest, ending⟩)

def pull (size : Nat) (journal : Journal) (r : Reader) : Except String (List UInt8) × Reader :=
  pullFrom size journal r.ending r.deliveries

end Reader

end Backtrack
