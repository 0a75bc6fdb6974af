import Backtrack.Log.Level
import Backtrack.Position
import Backtrack.Utf8

/-! What the parts of the library report while they work. An event is a value of its own kind; its level,
its target, its message and its named fields are read off it, and the layouts of a journal are built
from these alone. -/

namespace Backtrack

/-- The value of a named field. Text that is `plain` is written as it is and `quoted` text in quotes,
where the layout has a choice. -/
inductive FieldValue where
  | number (n : Nat)
  | flag (b : Bool)
  | plain (text : String)
  | quoted (text : String)
deriving DecidableEq, Repr

inductive Event where
  | streamCreated (name : String) (caseFold : Bool) (markCapacity : Option Nat)
  | marked (marker : Marker) (position : Position)
  | rewinding (marker : Marker) (source target : Position)
  | seekingBack (source target : Nat)
  | releasing (marker : Marker)
  | backupBeyondWindow (requested window : Nat)
  | backupBeforeStart (requested available : Nat)
  | chunkPulled (bytes : Nat)
  | readerDrained
  | readerFailed (reason : String)
  | invalidLead (lead : UInt8) (offset : Nat)
  | illFormed (bytes : List UInt8) (offset : Nat)
  | incomplete (bytes : List UInt8) (offset : Nat)
  | inspecting (file : String)
  | inspected (units : Nat)
  | finding (file word : String)
  | matched (position : Position)
deriving DecidableEq, Repr

abbrev Journal := Array Event

namespace Event

def phase : Event → Log.Phase
  | .streamCreated .. | .marked .. | .rewinding .. | .seekingBack .. | .releasing .. => .stream
  | .backupBeyondWindow .. | .backupBeforeStart .. | .chunkPulled .. | .readerDrained
  | .readerFailed .. | .invalidLead .. | .illFormed .. | .incomplete .. => .source
  | .inspecting .. | .inspected .. | .finding .. | .matched .. => .cli

def level : Event → Log.Level
  | .marked .. | .rewinding .. | .seekingBack .. | .releasing .. | .chunkPulled ..
  | .readerDrained | .matched .. => .trace
  | .streamCreated .. | .inspected .. => .debug
  | .inspecting .. | .finding .. => .info
  | .backupBeyondWindow .. | .backupBeforeStart .. | .readerFailed .. | .invalidLead ..
  | .illFormed .. | .incomplete .. => .warn

def target (e : Event) : String :=
  e.phase.target

/-- Whether the event reports bytes that are not well-formed text. -/
def isDecodingWarning : Event → Bool
  | .invalidLead .. | .illFormed .. | .incomplete .. => true
  | _ => false

/-- A byte as two hexadecimal digits in upper case. -/
def hexByte (b : UInt8) : String :=
  String.ofList ([b.toNat / 16, b.toNat % 16].map fun n => (Text.hexDigit n).toUpper)

def hexBytes (bytes : List UInt8) : String :=
  "[" ++ ", ".intercalate (bytes.map hexByte) ++ "]"

def message : Event → String
  | .streamCreated .. => "Creating char stream"
  | .marked .. => "Mark"
  | .rewinding .. => "Rewind"
  | .seekingBack .. => "Seek backward"
  | .releasing .. => "Release"
  | .backupBeyondWindow .. => "Backup exceeds window"
  | .backupBeforeStart .. => "Backup before start of input"
  | .chunkPulled .. => "Pulled chunk"
  | .readerDrained => "Reader drained"
  | .readerFailed reason => s!"Reader failed: {reason}"
  | .invalidLead lead _ => s!"Invalid UTF-8 lead byte: 0x{hexByte lead}"
  | .illFormed bytes _ =>
      s!"UTF-8 decode error for bytes {hexBytes bytes}: invalid utf-8 sequence of " ++
        s!"{Utf8.subpartLength bytes} bytes from index 0"
  | .incomplete bytes _ => s!"Incomplete UTF-8 sequence at EOF: {hexBytes bytes}"
  | .inspecting .. => "inspect"
  | .inspected .. => "inspect finished"
  | .finding .. => "find"
  | .matched .. => "match"

/-- The named fields in the order in which they are written. -/
def fields : Event → List (String × FieldValue)
  | .streamCreated name caseFold markCapacity =>
      [("name", .plain name), ("case_fold", .flag caseFold)] ++
        (markCapacity.map fun n => ("mark_capacity", FieldValue.number n)).toList
  | .marked marker position => [("marker", .plain (toString marker)), ("position", .plain (toString position))]
  | .rewinding marker source target =>
      [("marker", .plain (toString marker)), ("from", .plain (toString source)),
        ("to", .plain (toString target))]
  | .seekingBack source target => [("from", .number source), ("to", .number target)]
  | .releasing marker => [("marker", .plain (toString marker))]
  | .backupBeyondWindow requested window => [("requested", .number requested), ("window", .number window)]
  | .backupBeforeStart requested available =>
      [("requested", .number requested), ("available", .number available)]
  | .chunkPulled bytes => [("bytes", .number bytes)]
  | .readerDrained => []
  | .readerFailed _ => []
  | .invalidLead _ offset => [("offset", .number offset)]
  | .illFormed _ offset => [("offset", .number offset)]
  | .incomplete _ offset => [("offset", .number offset)]
  | .inspecting file => [("file", .plain file)]
  | .inspected units => [("units", .number units)]
  | .finding file word => [("file", .plain file), ("word", .quoted word)]
  | .matched position => [("at", .plain (toString position))]

end Event

end Backtrack
